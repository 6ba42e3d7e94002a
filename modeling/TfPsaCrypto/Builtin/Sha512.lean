import Mathlib.Data.Fin.VecNotation
import TfPsaCrypto.Library.Bytes

/-!
# SHA-512 and SHA-384

`sha512.c` with the C code of the compression, in both its forms: unrolled, and smaller
(`MBEDTLS_SHA512_SMALLER`). Words are of type `uint64_t`. A write outside the buffer is an error
of its own.
-/

namespace TfPsaCrypto.Sha512

open Bytes

abbrev Uint64 := BitVec 64

/-! ## Compression -/

/-- The round constants `K`. -/
def K : List Uint64 :=
  [0x428A2F98D728AE22, 0x7137449123EF65CD, 0xB5C0FBCFEC4D3B2F, 0xE9B5DBA58189DBBC,
    0x3956C25BF348B538, 0x59F111F1B605D019, 0x923F82A4AF194F9B, 0xAB1C5ED5DA6D8118,
    0xD807AA98A3030242, 0x12835B0145706FBE, 0x243185BE4EE4B28C, 0x550C7DC3D5FFB4E2,
    0x72BE5D74F27B896F, 0x80DEB1FE3B1696B1, 0x9BDC06A725C71235, 0xC19BF174CF692694,
    0xE49B69C19EF14AD2, 0xEFBE4786384F25E3, 0x0FC19DC68B8CD5B5, 0x240CA1CC77AC9C65,
    0x2DE92C6F592B0275, 0x4A7484AA6EA6E483, 0x5CB0A9DCBD41FBD4, 0x76F988DA831153B5,
    0x983E5152EE66DFAB, 0xA831C66D2DB43210, 0xB00327C898FB213F, 0xBF597FC7BEEF0EE4,
    0xC6E00BF33DA88FC2, 0xD5A79147930AA725, 0x06CA6351E003826F, 0x142929670A0E6E70,
    0x27B70A8546D22FFC, 0x2E1B21385C26C926, 0x4D2C6DFC5AC42AED, 0x53380D139D95B3DF,
    0x650A73548BAF63DE, 0x766A0ABB3C77B2A8, 0x81C2C92E47EDAEE6, 0x92722C851482353B,
    0xA2BFE8A14CF10364, 0xA81A664BBC423001, 0xC24B8B70D0F89791, 0xC76C51A30654BE30,
    0xD192E819D6EF5218, 0xD69906245565A910, 0xF40E35855771202A, 0x106AA07032BBD1B8,
    0x19A4C116B8D2D0C8, 0x1E376C085141AB53, 0x2748774CDF8EEB99, 0x34B0BCB5E19B48A8,
    0x391C0CB3C5C95A63, 0x4ED8AA4AE3418ACB, 0x5B9CCA4F7763E373, 0x682E6FF3D6B2B8A3,
    0x748F82EE5DEFB2FC, 0x78A5636F43172F60, 0x84C87814A1F0AB72, 0x8CC702081A6439EC,
    0x90BEFFFA23631E28, 0xA4506CEBDE82BDE9, 0xBEF9A3F7B2C67915, 0xC67178F2E372532B,
    0xCA273ECEEA26619C, 0xD186B8C721C0C207, 0xEADA7DD6CDE0EB1E, 0xF57D4F7FEE6ED178,
    0x06F067AA72176FBA, 0x0A637DC5A2C898A6, 0x113F9804BEF90DAE, 0x1B710B35131C471B,
    0x28DB77F523047D84, 0x32CAAB7B40C72493, 0x3C9EBE0A15C9BEBC, 0x431D67C49C100D4C,
    0x4CC5D4BECB3E42B6, 0x597F299CFC657E2A, 0x5FCB6FAB3AD6FAEC, 0x6C44198C4A475817]

def shr (x : Uint64) (n : Nat) : Uint64 := x >>> n
def rotr (x : Uint64) (n : Nat) : Uint64 := shr x n ||| (x <<< (64 - n))

def S0 (x : Uint64) : Uint64 := rotr x 1 ^^^ rotr x 8 ^^^ shr x 7
def S1 (x : Uint64) : Uint64 := rotr x 19 ^^^ rotr x 61 ^^^ shr x 6

def S2 (x : Uint64) : Uint64 := rotr x 28 ^^^ rotr x 34 ^^^ rotr x 39
def S3 (x : Uint64) : Uint64 := rotr x 14 ^^^ rotr x 18 ^^^ rotr x 41

def F0 (x y z : Uint64) : Uint64 := (x &&& y) ||| (z &&& (x ||| y))
def F1 (x y z : Uint64) : Uint64 := z ^^^ (x &&& (y ^^^ z))

/-- The registers `local.A`, and the words of a state. -/
abbrev Registers := Fin 8 → Uint64

def P (A : Registers) (a b c d e f g h : Fin 8) (x k : Uint64) : Registers :=
  let temp1 := A h + S3 (A e) + F1 (A e) (A f) (A g) + k + x
  let temp2 := S2 (A a) + F0 (A a) (A b) (A c)
  Function.update (Function.update A d (A d + temp1)) h (temp1 + temp2)

def getUint64BE (data : ByteString) (offset : Nat) : Uint64 :=
  BitVec.ofNat 64 (ofBE (slice data offset 8))

def putUint64BE (n : Uint64) : ByteString := toBE 8 n.toNat

def extend (W : Nat → Uint64) (i : Nat) : Uint64 :=
  S1 (W (i - 2)) + W (i - 7) + S0 (W (i - 15)) + W (i - 16)

def moveRegisters (A : Registers) : Registers := ![A 7, A 0, A 1, A 2, A 3, A 4, A 5, A 6]

def smallerIteration (data : ByteString) (s : (Nat → Uint64) × Registers) (i : Nat) :
    (Nat → Uint64) × Registers :=
  let W := Function.update s.1 i (if i < 16 then getUint64BE data (8 * i) else extend s.1 i)
  (W, moveRegisters (P s.2 0 1 2 3 4 5 6 7 (W i) (K.getD i 0)))

def unrolledIteration (W : Nat → Uint64) (A : Registers) (i : Nat) : Registers :=
  let A := P A 0 1 2 3 4 5 6 7 (W i) (K.getD i 0)
  let A := P A 7 0 1 2 3 4 5 6 (W (i + 1)) (K.getD (i + 1) 0)
  let A := P A 6 7 0 1 2 3 4 5 (W (i + 2)) (K.getD (i + 2) 0)
  let A := P A 5 6 7 0 1 2 3 4 (W (i + 3)) (K.getD (i + 3) 0)
  let A := P A 4 5 6 7 0 1 2 3 (W (i + 4)) (K.getD (i + 4) 0)
  let A := P A 3 4 5 6 7 0 1 2 (W (i + 5)) (K.getD (i + 5) 0)
  let A := P A 2 3 4 5 6 7 0 1 (W (i + 6)) (K.getD (i + 6) 0)
  P A 1 2 3 4 5 6 7 0 (W (i + 7)) (K.getD (i + 7) 0)

/-- `local.W`, filled by the two loops of the unrolled form. -/
def fillW (data : ByteString) : Nat → Uint64 :=
  let W := (List.range 16).foldl
    (fun W i => Function.update W i (getUint64BE data (8 * i))) fun _ => 0
  (List.range' 16 64).foldl (fun W i => Function.update W i (extend W i)) W

def processRounds (smaller : Bool) (state : Registers) (data : ByteString) : Registers :=
  if smaller then
    ((List.range 80).foldl (smallerIteration data) (fun _ => 0, state)).2
  else
    (List.range 10).foldl (fun A n => unrolledIteration (fillW data) A (8 * n)) state

def mbedtlsInternalSha512ProcessC (smaller : Bool) (state : Registers) (data : ByteString) :
    Registers :=
  fun i => state i + processRounds smaller state data i

/-- The state, and the bytes processed. -/
def mbedtlsInternalSha512ProcessManyC (smaller : Bool) (state : Registers) (data : ByteString) :
    Registers × Nat :=
  if 128 ≤ data.length then
    let r := mbedtlsInternalSha512ProcessManyC smaller
      (mbedtlsInternalSha512ProcessC smaller state (data.take 128)) (data.drop 128)
    (r.1, 128 + r.2)
  else (state, 0)
termination_by data.length
decreasing_by
  rw [List.length_drop]
  omega

/-! ## Contexts -/

structure MbedtlsSha512Context where
  total0 : Uint64
  total1 : Uint64
  state : Registers
  buffer : ByteString
  is384 : Int

/-- `MBEDTLS_ERR_SHA512_BAD_INPUT_DATA`, `MBEDTLS_ERR_ERROR_GENERIC_ERROR`, and a write outside
the buffer. -/
inductive Sha512Error where
  | badInputData
  | genericError
  | outOfBounds
  deriving DecidableEq, Repr

def sha512BlockSize : Nat := 128

def mbedtlsSha512Init : MbedtlsSha512Context :=
  { total0 := 0, total1 := 0, state := fun _ => 0, buffer := List.replicate sha512BlockSize 0
    is384 := 0 }

def mbedtlsSha512Starts (ctx : MbedtlsSha512Context) (is384 : Int) :
    Except Sha512Error MbedtlsSha512Context :=
  if is384 ≠ 0 ∧ is384 ≠ 1 then .error .badInputData
  else
    .ok { ctx with
      total0 := 0
      total1 := 0
      state :=
        if is384 = 0 then
          ![0x6A09E667F3BCC908, 0xBB67AE8584CAA73B, 0x3C6EF372FE94F82B, 0xA54FF53A5F1D36F1,
            0x510E527FADE682D1, 0x9B05688C2B3E6C1F, 0x1F83D9ABFB41BD6B, 0x5BE0CD19137E2179]
        else
          ![0xCBBB9D5DC1059ED8, 0x629A292A367CD507, 0x9159015A3070DD17, 0x152FECD8F70E5939,
            0x67332667FFC00B31, 0x8EB44A8768581511, 0xDB0C2E0D64F98FA7, 0x47B5481DBEFA4FA4]
      is384 := is384 }

def writeBuffer (buffer : ByteString) (offset : Nat) (data : ByteString) :
    Except Sha512Error ByteString :=
  if offset + data.length ≤ sha512BlockSize then .ok (storeAt buffer offset data)
  else .error .outOfBounds

/-- The loop over whole blocks of `mbedtls_sha512_update`: the state, and the input left. -/
def updateLoop (smaller : Bool) (state : Registers) (input : ByteString) :
    Except Sha512Error (Registers × ByteString) :=
  if sha512BlockSize ≤ input.length then
    let r := mbedtlsInternalSha512ProcessManyC smaller state input
    if r.2 < sha512BlockSize then .error .genericError
    else updateLoop smaller r.1 (input.drop r.2)
  else .ok (state, input)
termination_by input.length
decreasing_by
  rename_i hlength hprocessed
  have hsize : sha512BlockSize = 128 := rfl
  change ¬ (mbedtlsInternalSha512ProcessManyC smaller state input).2 < sha512BlockSize at hprocessed
  rw [List.length_drop]
  omega

/-- The end of `mbedtls_sha512_update`: whole blocks, and what is kept of the input. -/
def updateBlocks (smaller : Bool) (ctx : MbedtlsSha512Context) (left : Nat)
    (input : ByteString) : Except Sha512Error MbedtlsSha512Context :=
  match updateLoop smaller ctx.state input with
  | .error e => .error e
  | .ok (state, input) =>
    if input.length > 0 then
      match writeBuffer ctx.buffer left input with
      | .error e => .error e
      | .ok buffer => .ok { ctx with state := state, buffer := buffer }
    else .ok { ctx with state := state }

def mbedtlsSha512Update (smaller : Bool) (ctx : MbedtlsSha512Context) (input : ByteString) :
    Except Sha512Error MbedtlsSha512Context :=
  if input.length = 0 then .ok ctx
  else
    let left := (ctx.total0 &&& 0x7F).toNat
    let fill := sha512BlockSize - left
    let total0 := ctx.total0 + BitVec.ofNat 64 input.length
    let total1 := if total0 < BitVec.ofNat 64 input.length then ctx.total1 + 1 else ctx.total1
    let ctx := { ctx with total0 := total0, total1 := total1 }
    if left ≠ 0 ∧ input.length ≥ fill then
      match writeBuffer ctx.buffer left (input.take fill) with
      | .error e => .error e
      | .ok buffer =>
        updateBlocks smaller
          { ctx with
              state := mbedtlsInternalSha512ProcessC smaller ctx.state buffer
              buffer := buffer }
          0 (input.drop fill)
    else updateBlocks smaller ctx left input

def finishPadding (smaller : Bool) (state : Registers) (buffer : ByteString) (used : Nat) :
    Except Sha512Error (Registers × ByteString) := do
  let buffer ← writeBuffer buffer used [0x80]
  let used := used + 1
  if used ≤ 112 then
    let buffer ← writeBuffer buffer used (List.replicate (112 - used) 0)
    return (state, buffer)
  else
    let buffer ← writeBuffer buffer used (List.replicate (sha512BlockSize - used) 0)
    let state := mbedtlsInternalSha512ProcessC smaller state buffer
    let buffer ← writeBuffer buffer 0 (List.replicate 112 0)
    return (state, buffer)

/-- The bytes written to `output`. The context is freed. -/
def mbedtlsSha512Finish (smaller : Bool) (ctx : MbedtlsSha512Context) :
    Except Sha512Error ByteString := do
  let used := (ctx.total0 &&& 0x7F).toNat
  let (state, buffer) ← finishPadding smaller ctx.state ctx.buffer used
  let high := (ctx.total0 >>> 61) ||| (ctx.total1 <<< 3)
  let low := ctx.total0 <<< 3
  let buffer ← writeBuffer buffer 112 (putUint64BE high)
  let buffer ← writeBuffer buffer 120 (putUint64BE low)
  let state := mbedtlsInternalSha512ProcessC smaller state buffer
  let output := [state 0, state 1, state 2, state 3, state 4, state 5].flatMap putUint64BE
  if ctx.is384 = 0 then return output ++ [state 6, state 7].flatMap putUint64BE
  else return output

/-- A digest computed with these calls of `mbedtls_sha512_update`. -/
def sha512Run (smaller : Bool) (is384 : Int) (inputs : List ByteString) :
    Except Sha512Error ByteString := do
  let ctx ← mbedtlsSha512Starts mbedtlsSha512Init is384
  let ctx ← inputs.foldlM (mbedtlsSha512Update smaller) ctx
  mbedtlsSha512Finish smaller ctx

end TfPsaCrypto.Sha512
