import TfPsaCrypto.Library.Blocks
import TfPsaCrypto.Library.CounterStream
import TfPsaCrypto.Library.Machine

/-!
# GCM

`gcm.c` but for its tables. The keyed block cipher, which may fail, and the multiplication by the
hash key are parameters. Calls of the cipher on a counter block are logged.
-/

namespace TfPsaCrypto

open Bytes Blocks

/-- `MBEDTLS_GCM_*`. No call checks that the mode is one of the two. -/
inductive GcmMode where
  | decrypt
  | encrypt
  | other (mode : Int)
  deriving DecidableEq, Repr

/-- Without the cipher context and the hash key. -/
structure MbedtlsGcmContext where
  mode : GcmMode
  len : Nat
  addLen : Nat
  baseEctr : Block 16
  y : Block 16
  buf : Block 16

def MbedtlsGcmContext.init : MbedtlsGcmContext :=
  { mode := .decrypt, len := 0, addLen := 0, baseEctr := Block.zero, y := Block.zero,
    buf := Block.zero }

inductive GcmRet where
  | ok
  | badInput
  | bufferTooSmall
  | cipher (code : Int)
  deriving DecidableEq, Repr

structure GcmResult where
  ret : GcmRet
  ctx : MbedtlsGcmContext
  output : ByteString
  log : List (CounterStream.Feed (Block 16))

def MbedtlsGcmContext.returns (ctx : MbedtlsGcmContext) (ret : GcmRet) : GcmResult :=
  { ret := ret, ctx := ctx, output := [], log := [] }

section Calls

variable (cipher : Block 16 → Except Int (Block 16)) (gcmMult : Block 16 → Block 16)
  (ctx : MbedtlsGcmContext)

/-! ## Starting -/

/-- The `while` loop of `mbedtls_gcm_starts`; every round takes at least one byte. -/
def gcmIvLoop : Nat → Block 16 → ByteString → Block 16
  | 0, y, _ => y
  | fuel + 1, y, iv =>
    if iv.length = 0 then y
    else
      let useLen := if iv.length < 16 then iv.length else 16
      gcmIvLoop fuel (gcmMult (y.xorAt 0 (iv.take useLen))) (iv.drop useLen)

def gcmFirstCounter (iv : ByteString) : Block 16 :=
  if iv.length = 12 then
    (Block.zero.store 0 iv).store 15 [1]
  else
    let workBuf := Block.zero.store 8 (toBE 8 (iv.length * 8))
    gcmMult ((gcmIvLoop gcmMult iv.length Block.zero iv).xor workBuf)

def mbedtlsGcmStarts (mode : GcmMode) (iv : ByteString) : GcmResult :=
  if iv.length = 0 ∨ iv.length / 2 ^ 61 ≠ 0 then
    ctx.returns .badInput
  else
    let ctx :=
      { ctx with
          y := gcmFirstCounter gcmMult iv
          buf := Block.zero
          mode := mode
          len := 0
          addLen := 0 }
    let log := [{ counter := ctx.y, offset := 0 }]
    match cipher ctx.y with
    | .error e => { ctx.returns (.cipher e) with log := log }
    | .ok ectr => { { ctx with baseEctr := ectr }.returns .ok with log := log }

/-! ## Additional data -/

/-- The full blocks of `mbedtls_gcm_update_ad`, and what is left over. -/
def gcmUpdateAdLoop : Nat → Block 16 → ByteString → Block 16
  | 0, buf, _ => buf
  | fuel + 1, buf, add =>
    if add.length ≥ 16 then
      gcmUpdateAdLoop fuel (gcmMult (buf.xorAt 0 (add.take 16))) (add.drop 16)
    else if add.length > 0 then
      buf.xorAt 0 add
    else
      buf

def mbedtlsGcmUpdateAd (add : ByteString) : GcmResult :=
  let newAddLen := (ctx.addLen + add.length) % 2 ^ 64
  if newAddLen < ctx.addLen ∨ newAddLen / 2 ^ 61 ≠ 0 then
    ctx.returns .badInput
  else
    let offset := ctx.addLen % 16
    let useLen := if offset ≠ 0 then min (16 - offset) add.length else 0
    let buf := ctx.buf.xorAt offset (add.take useLen)
    let buf := if offset ≠ 0 ∧ offset + useLen = 16 then gcmMult buf else buf
    { ctx with
        buf := gcmUpdateAdLoop gcmMult add.length buf (add.drop useLen)
        addLen := newAddLen }.returns .ok

/-! ## The message -/

def gcmIncr (y : Block 16) : Block 16 :=
  let x := ofLE [y 15, y 14, y 13, y 12]
  y.store 12 (toBE 4 ((x + 1) % 2 ^ 32))

def gcmMask (offset : Nat) (input : ByteString) : GcmResult :=
  let log := [{ counter := ctx.y, offset := offset }]
  match cipher ctx.y with
  | .error e => { ctx.returns (.cipher e) with log := log }
  | .ok ectr =>
    let output := Bytes.xor (ectr.toList.drop offset) input
    let buf := if ctx.mode = .decrypt then ctx.buf.xorAt offset input else ctx.buf
    let buf := if ctx.mode = .encrypt then buf.xorAt offset output else buf
    { { ctx with buf := buf }.returns .ok with output := output, log := log }

/-- `mbedtls_gcm_update` from the start of a block on; `ctx->len` counts the blocks already. -/
def gcmUpdateLoop : Nat → MbedtlsGcmContext → ByteString → GcmResult
  | 0, ctx, _ => ctx.returns .ok
  | fuel + 1, ctx, input =>
    if input.length = 0 then
      ctx.returns .ok
    else
      let masked := gcmMask cipher { ctx with y := gcmIncr ctx.y } 0 (input.take 16)
      if masked.ret ≠ .ok then
        masked
      else if input.length ≥ 16 then
        let ctx := { masked.ctx with buf := gcmMult masked.ctx.buf }
        let rest := gcmUpdateLoop fuel ctx (input.drop 16)
        { rest with output := masked.output ++ rest.output, log := masked.log ++ rest.log }
      else
        masked

def gcmUpdatePartial (offset useLen : Nat) (input : ByteString) : GcmResult :=
  if offset ≠ 0 then
    let masked := gcmMask cipher ctx offset (input.take useLen)
    if masked.ret ≠ .ok then
      masked
    else
      { masked with
          ctx :=
            { masked.ctx with
                buf := if offset + useLen = 16 then gcmMult masked.ctx.buf else masked.ctx.buf
                len := masked.ctx.len + useLen } }
  else
    ctx.returns .ok

/-- `overlap` says that the output starts inside the input. -/
def mbedtlsGcmUpdate (input : ByteString) (outputSize : Nat) (overlap : Bool) : GcmResult :=
  if outputSize < input.length then
    ctx.returns .bufferTooSmall
  else if input.length = 0 then
    ctx.returns .ok
  else if overlap then
    ctx.returns .badInput
  else if (ctx.len + input.length) % 2 ^ 64 < ctx.len ∨
      (ctx.len + input.length) % 2 ^ 64 > 0xFFFFFFFE0 then
    ctx.returns .badInput
  else
    let ctx :=
      if ctx.len = 0 ∧ ctx.addLen % 16 ≠ 0 then { ctx with buf := gcmMult ctx.buf } else ctx
    let offset := ctx.len % 16
    let useLen := if offset ≠ 0 then min (16 - offset) input.length else 0
    let part := gcmUpdatePartial cipher gcmMult ctx offset useLen input
    if part.ret ≠ .ok then
      part
    else
      let rest := gcmUpdateLoop cipher gcmMult input.length
        { part.ctx with len := part.ctx.len + (input.length - useLen) } (input.drop useLen)
      { rest with output := part.output ++ rest.output, log := part.log ++ rest.log }

/-! ## The tag -/

/-- The output is the tag. -/
def mbedtlsGcmFinish (tagLen : Nat) : GcmResult :=
  let ctx := if ctx.len = 0 ∧ ctx.addLen % 16 ≠ 0 then { ctx with buf := gcmMult ctx.buf } else ctx
  if tagLen > 16 ∨ tagLen < 4 then
    ctx.returns .badInput
  else
    let ctx := if ctx.len % 16 ≠ 0 then { ctx with buf := gcmMult ctx.buf } else ctx
    let origLen := ctx.len * 8 % 2 ^ 64
    let origAddLen := ctx.addLen * 8 % 2 ^ 64
    if origLen ≠ 0 ∨ origAddLen ≠ 0 then
      let workBuf := Block.zero.store 0 (toBE 8 origAddLen ++ toBE 8 origLen)
      let ctx := { ctx with buf := gcmMult (ctx.buf.xor workBuf) }
      { ctx.returns .ok with output := (ctx.baseEctr.xor ctx.buf).toList.take tagLen }
    else
      { ctx.returns .ok with output := ctx.baseEctr.toList.take tagLen }

end Calls

/-! ## Sequences of calls -/

inductive GcmCall where
  | updateAd (add : ByteString)
  | update (input : ByteString) (outputSize : Nat) (overlap : Bool)

def gcmCall (cipher : Block 16 → Except Int (Block 16)) (gcmMult : Block 16 → Block 16)
    (ctx : MbedtlsGcmContext) : GcmCall → GcmResult
  | .updateAd add => mbedtlsGcmUpdateAd gcmMult ctx add
  | .update input outputSize overlap =>
    mbedtlsGcmUpdate cipher gcmMult ctx input outputSize overlap

/-- The bytes that a call passes; a buffer has a `size_t` length, of 64 bits at most. -/
def GcmCall.data : GcmCall → ByteString
  | .updateAd add => add
  | .update input _ _ => input

def gcmMachine (gcmMult : Block 16 → Block 16) :
    Machine.StepFn MbedtlsGcmContext (GcmCall × (Block 16 → Except Int (Block 16))) GcmResult :=
  fun ctx a =>
    if a.1.data.length < 2 ^ 64 then
      let r := gcmCall a.2 gcmMult ctx a.1
      some (r.ctx, r)
    else
      none

end TfPsaCrypto
