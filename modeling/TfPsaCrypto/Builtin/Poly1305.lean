import TfPsaCrypto.Builtin.Chachapoly
import TfPsaCrypto.Library.Poly1305

/-!
# Poly1305

`poly1305.c`, with words of 32 bits and products of 64 bits.
-/

namespace TfPsaCrypto

open Bytes

/-! ## Words -/

structure Words4 where
  w0 : Nat
  w1 : Nat
  w2 : Nat
  w3 : Nat

structure Words5 where
  w0 : Nat
  w1 : Nat
  w2 : Nat
  w3 : Nat
  w4 : Nat

/-- A conversion to `uint32_t`. -/
def u32 (x : Nat) : Nat := x % 2 ^ 32

/-- A value of type `uint64_t`. -/
def u64 (x : Nat) : Nat := x % 2 ^ 64

def mul64 (a b : Nat) : Nat := u64 (a * b)

def getUint32LE (data : ByteString) (off : Nat) : Nat := ofLE (slice data off 4)

/-! ## Blocks -/

/-- The additions at the start of the loop body of `poly1305_process`. -/
def poly1305AddBlock (acc : Words5) (input : ByteString) (needsPadding : Nat) : Words5 :=
  let d0 := u64 (getUint32LE input 0 + acc.w0)
  let d1 := u64 (getUint32LE input 4 + u64 (acc.w1 + d0 / 2 ^ 32))
  let d2 := u64 (getUint32LE input 8 + u64 (acc.w2 + d1 / 2 ^ 32))
  let d3 := u64 (getUint32LE input 12 + u64 (acc.w3 + d2 / 2 ^ 32))
  { w0 := u32 d0, w1 := u32 d1, w2 := u32 d2, w3 := u32 d3
    w4 := u32 (acc.w4 + u32 (u32 (d3 / 2 ^ 32) + needsPadding)) }

def poly1305Multiply (r : Words4) (acc : Words5) : Words5 :=
  let rs1 := u32 (r.w1 + r.w1 / 4)
  let rs2 := u32 (r.w2 + r.w2 / 4)
  let rs3 := u32 (r.w3 + r.w3 / 4)
  let d0 := u64 (u64 (u64 (mul64 acc.w0 r.w0 + mul64 acc.w1 rs3) + mul64 acc.w2 rs2) +
    mul64 acc.w3 rs1)
  let d1 := u64 (u64 (u64 (u64 (mul64 acc.w0 r.w1 + mul64 acc.w1 r.w0) + mul64 acc.w2 rs3) +
    mul64 acc.w3 rs2) + mul64 acc.w4 rs1)
  let d2 := u64 (u64 (u64 (u64 (mul64 acc.w0 r.w2 + mul64 acc.w1 r.w1) + mul64 acc.w2 r.w0) +
    mul64 acc.w3 rs3) + mul64 acc.w4 rs2)
  let d3 := u64 (u64 (u64 (u64 (mul64 acc.w0 r.w3 + mul64 acc.w1 r.w2) + mul64 acc.w2 r.w1) +
    mul64 acc.w3 r.w0) + mul64 acc.w4 rs3)
  { w0 := d0, w1 := d1, w2 := d2, w3 := d3, w4 := u32 (acc.w4 * r.w0) }

def poly1305Reduce (d : Words5) : Words5 :=
  let d1 := u64 (d.w1 + d.w0 / 2 ^ 32)
  let d2 := u64 (d.w2 + d1 / 2 ^ 32)
  let d3 := u64 (d.w3 + d2 / 2 ^ 32)
  let acc0 := u32 d.w0
  let acc1 := u32 d1
  let acc2 := u32 d2
  let acc3 := u32 d3
  let acc4 := u32 (u32 (d3 / 2 ^ 32) + d.w4)
  let d0 := u64 (acc0 + acc4 / 4 + (acc4 &&& 0xFFFFFFFC))
  let acc4 := acc4 &&& 3
  let acc0 := u32 d0
  let d0 := u64 (acc1 + d0 / 2 ^ 32)
  let acc1 := u32 d0
  let d0 := u64 (acc2 + d0 / 2 ^ 32)
  let acc2 := u32 d0
  let d0 := u64 (acc3 + d0 / 2 ^ 32)
  let acc3 := u32 d0
  let d0 := u64 (acc4 + d0 / 2 ^ 32)
  { w0 := acc0, w1 := acc1, w2 := acc2, w3 := acc3, w4 := u32 d0 }

/-- The loop of `poly1305_process`; `nblocks` blocks are left. -/
def poly1305Process (r : Words4) (needsPadding : Nat) : Nat → Words5 → ByteString → Words5
  | 0, acc, _ => acc
  | nblocks + 1, acc, input =>
    let acc := poly1305Reduce (poly1305Multiply r (poly1305AddBlock acc input needsPadding))
    poly1305Process r needsPadding nblocks acc (input.drop 16)

def poly1305ComputeMac (acc : Words5) (s : Words4) : ByteString :=
  let d := u64 (acc.w0 + 5)
  let g0 := u32 d
  let d := u64 (acc.w1 + d / 2 ^ 32)
  let g1 := u32 d
  let d := u64 (acc.w2 + d / 2 ^ 32)
  let g2 := u32 d
  let d := u64 (acc.w3 + d / 2 ^ 32)
  let g3 := u32 d
  let g4 := u32 (acc.w4 + u32 (d / 2 ^ 32))
  -- all ones if the 131st bit is set
  let mask := (2 ^ 32 - g4 / 4) % 2 ^ 32
  let maskInv := 2 ^ 32 - 1 - mask
  let acc0 := (acc.w0 &&& maskInv) ||| (g0 &&& mask)
  let acc1 := (acc.w1 &&& maskInv) ||| (g1 &&& mask)
  let acc2 := (acc.w2 &&& maskInv) ||| (g2 &&& mask)
  let acc3 := (acc.w3 &&& maskInv) ||| (g3 &&& mask)
  let d := u64 (acc0 + s.w0)
  let acc0 := u32 d
  let d := u64 (acc1 + s.w1 + d / 2 ^ 32)
  let acc1 := u32 d
  let d := u64 (acc2 + s.w2 + d / 2 ^ 32)
  let acc2 := u32 d
  let acc3 := u32 (acc3 + u32 (s.w3 + u32 (d / 2 ^ 32)))
  toLE 4 acc0 ++ toLE 4 acc1 ++ toLE 4 acc2 ++ toLE 4 acc3

/-! ## The context -/

structure MbedtlsPoly1305Context where
  r : Words4
  s : Words4
  acc : Words5
  queue : ByteString
  queueLen : Nat

def MbedtlsPoly1305Context.init : MbedtlsPoly1305Context :=
  { r := ⟨0, 0, 0, 0⟩, s := ⟨0, 0, 0, 0⟩, acc := ⟨0, 0, 0, 0, 0⟩, queue := List.replicate 16 0
    queueLen := 0 }

def mbedtlsPoly1305Starts (key : ByteString) : MbedtlsPoly1305Context :=
  { r :=
      { w0 := getUint32LE key 0 &&& 0x0FFFFFFF
        w1 := getUint32LE key 4 &&& 0x0FFFFFFC
        w2 := getUint32LE key 8 &&& 0x0FFFFFFC
        w3 := getUint32LE key 12 &&& 0x0FFFFFFC }
    s :=
      { w0 := getUint32LE key 16, w1 := getUint32LE key 20, w2 := getUint32LE key 24
        w3 := getUint32LE key 28 }
    acc := ⟨0, 0, 0, 0, 0⟩
    queue := List.replicate 16 0
    queueLen := 0 }

/-- The first part of `mbedtls_poly1305_update`: the input goes into the queue. What is left of it.
-/
def poly1305FillQueue (ctx : MbedtlsPoly1305Context) (input : ByteString) :
    MbedtlsPoly1305Context × ByteString :=
  if input.length > 0 ∧ ctx.queueLen > 0 then
    let queueFreeLen := 16 - ctx.queueLen
    if input.length < queueFreeLen then
      ({ ctx with
          queue := storeAt ctx.queue ctx.queueLen input
          queueLen := ctx.queueLen + input.length }, [])
    else
      let queue := storeAt ctx.queue ctx.queueLen (input.take queueFreeLen)
      ({ ctx with
          queue := queue
          queueLen := 0
          acc := poly1305Process ctx.r 1 1 ctx.acc queue }, input.drop queueFreeLen)
  else (ctx, input)

def mbedtlsPoly1305Update (ctx : MbedtlsPoly1305Context) (input : ByteString) :
    MbedtlsPoly1305Context :=
  let filled := poly1305FillQueue ctx input
  let ctx := filled.1
  let remaining := filled.2
  let nblocks := remaining.length / 16
  let ctx :=
    if remaining.length ≥ 16 then
      { ctx with acc := poly1305Process ctx.r 1 nblocks ctx.acc remaining }
    else ctx
  let remaining := if remaining.length ≥ 16 then remaining.drop (nblocks * 16) else remaining
  if remaining.length > 0 then
    { ctx with queueLen := remaining.length, queue := storeAt ctx.queue 0 remaining }
  else ctx

def mbedtlsPoly1305Finish (ctx : MbedtlsPoly1305Context) : MbedtlsPoly1305Context × ByteString :=
  let ctx :=
    if ctx.queueLen > 0 then
      let queue := storeAt ctx.queue ctx.queueLen [1]
      let queueLen := ctx.queueLen + 1
      let queue := storeAt queue queueLen (List.replicate (16 - queueLen) 0)
      { ctx with
          queue := queue
          queueLen := queueLen
          acc := poly1305Process ctx.r 0 1 ctx.acc queue }
    else ctx
  (ctx, poly1305ComputeMac ctx.acc ctx.s)

/-- The functions of `poly1305.c`. None of them fails. -/
def poly1305Functions : Poly1305Functions MbedtlsPoly1305Context where
  starts _ key := .ok (mbedtlsPoly1305Starts key)
  update ctx input := .ok (mbedtlsPoly1305Update ctx input)
  finish ctx := .ok (mbedtlsPoly1305Finish ctx)

end TfPsaCrypto
