import TfPsaCrypto.Library.Blocks
import TfPsaCrypto.Library.CounterStream
import TfPsaCrypto.Library.Machine

/-!
# CCM

The functions of `ccm.c` for a message in pieces. The keyed block cipher is a parameter, which may
fail; `sizeMod` is `SIZE_MAX + 1`. Calls of the cipher on a counter block are logged.
-/

namespace TfPsaCrypto

open Bytes Blocks

/-! ## The context -/

structure CcmState where
  started : Bool
  lengthsSet : Bool
  authDataStarted : Bool
  authDataFinished : Bool
  error : Bool
  deriving DecidableEq, Repr

def CcmState.clear : CcmState :=
  { started := false, lengthsSet := false, authDataStarted := false
    authDataFinished := false, error := false }

/-- `MBEDTLS_CCM_*`. No call checks that the mode is one of the four. -/
inductive CcmMode where
  | decrypt
  | encrypt
  | starDecrypt
  | starEncrypt
  | other (mode : Int)
  deriving DecidableEq, Repr

def CcmMode.isEncrypt : CcmMode → Bool
  | encrypt => true
  | starEncrypt => true
  | _ => false

def CcmMode.isDecrypt : CcmMode → Bool
  | decrypt => true
  | starDecrypt => true
  | _ => false

def CcmMode.isStar : CcmMode → Bool
  | starDecrypt => true
  | starEncrypt => true
  | _ => false

/-- Without the cipher context. -/
structure MbedtlsCcmContext where
  y : Block 16
  ctr : Block 16
  plaintextLen : Nat
  addLen : Nat
  tagLen : Nat
  processed : Nat
  q : Nat
  mode : CcmMode
  state : CcmState

/-- The context after `mbedtls_ccm_init` and `mbedtls_ccm_setkey`. -/
def MbedtlsCcmContext.init : MbedtlsCcmContext :=
  { y := Block.zero, ctr := Block.zero, plaintextLen := 0, addLen := 0, tagLen := 0
    processed := 0, q := 0, mode := .decrypt, state := .clear }

inductive CcmRet where
  | ok
  | badInput
  | corruptionDetected
  | cipher (code : Int)
  deriving DecidableEq, Repr

/-- The result of a call: what it returns, the context it leaves, the output bytes, and
the counter blocks fed to the block cipher. -/
structure CcmResult where
  ret : CcmRet
  ctx : MbedtlsCcmContext
  output : ByteString
  log : List (CounterStream.Feed (Block 16))

abbrev BlockCipher := Block 16 → Except Int (Block 16)

section Calls

variable (cipher : BlockCipher) (sizeMod : Nat) (ctx : MbedtlsCcmContext)

def MbedtlsCcmContext.returns (ret : CcmRet) : CcmResult :=
  { ret := ret, ctx := ctx, output := [], log := [] }

def MbedtlsCcmContext.fails (ret : CcmRet) : CcmResult :=
  { ret := ret, ctx := { ctx with state := { ctx.state with error := true } }
    output := [], log := [] }

/-! ## Starting -/

def encryptY : CcmResult :=
  match cipher ctx.y with
  | .error e => ctx.fails (.cipher e)
  | .ok y => { ctx with y := y }.returns .ok

def ccmCalculateFirstBlockIfReady : CcmResult :=
  if ctx.state.started = false ∨ ctx.state.lengthsSet = false then
    ctx.returns .ok
  else if ctx.tagLen = 0 then
    if ctx.mode.isStar then
      { ctx with plaintextLen := 0 }.returns .ok
    else
      ctx.fails .badInput
  else
    let flags := ctx.y 0 ||| (if ctx.addLen > 0 then (0x40 : UInt8) else 0) |||
      UInt8.ofNat (((ctx.tagLen - 2) / 2) <<< 3) ||| UInt8.ofNat (ctx.q - 1)
    let y := (ctx.y.store 0 [flags]).store (16 - ctx.q) (toBE ctx.q ctx.plaintextLen)
    let ctx := { ctx with y := y }
    -- what is left of the length after q bytes
    if ctx.plaintextLen / 256 ^ ctx.q > 0 then
      ctx.fails .badInput
    else
      encryptY cipher ctx

def mbedtlsCcmStarts (mode : CcmMode) (iv : ByteString) : CcmResult :=
  if iv.length < 7 ∨ iv.length > 13 then
    ctx.returns .badInput
  else
    let q := 16 - 1 - iv.length
    let ctr := ((Block.zero.store 0 [UInt8.ofNat (q - 1)]).store 1 iv).store 15 [1]
    ccmCalculateFirstBlockIfReady cipher
      { ctx with
          mode := mode
          q := q
          ctr := ctr
          y := ctx.y.store 1 iv
          state := { ctx.state with started := true } }

def mbedtlsCcmSetLengths (totalAdLen plaintextLen tagLen : Nat) : CcmResult :=
  if tagLen = 2 ∨ tagLen > 16 ∨ tagLen % 2 ≠ 0 then
    ctx.returns .badInput
  else if totalAdLen ≥ 0xFF00 then
    ctx.returns .badInput
  else
    ccmCalculateFirstBlockIfReady cipher
      { ctx with
          plaintextLen := plaintextLen
          addLen := totalAdLen
          tagLen := tagLen
          processed := 0
          state := { ctx.state with lengthsSet := true } }

/-! ## Additional data -/

/-- The `while` loop of `mbedtls_ccm_update_ad`; a round takes a byte at least, which bounds the
fuel. -/
def ccmUpdateAdLoop : Nat → MbedtlsCcmContext → ByteString → CcmResult
  | 0, ctx, _ => ctx.returns .ok
  | fuel + 1, ctx, add =>
    if add.length = 0 then
      ctx.returns .ok
    else
      -- account for y[0] and y[1] holding the total length of the data
      let offset := (ctx.processed + 2) % 16
      let useLen := min (16 - offset) add.length
      let ctx :=
        { ctx with
            y := ctx.y.xorAt offset (add.take useLen)
            processed := (ctx.processed + useLen) % sizeMod }
      if useLen + offset = 16 ∨ ctx.processed = ctx.addLen then
        let encrypted := encryptY cipher ctx
        if encrypted.ret ≠ .ok then encrypted
        else ccmUpdateAdLoop fuel encrypted.ctx (add.drop useLen)
      else
        ccmUpdateAdLoop fuel ctx (add.drop useLen)

def mbedtlsCcmUpdateAd (add : ByteString) : CcmResult :=
  if ctx.state.error then
    ctx.returns .badInput
  else if add.length = 0 then
    ctx.returns .ok
  else if ctx.state.authDataFinished then
    ctx.returns .badInput
  else if ctx.state.authDataStarted = false ∧ add.length > ctx.addLen then
    ctx.returns .badInput
  else if ctx.state.authDataStarted ∧
      (ctx.processed + add.length) % sizeMod > ctx.addLen then
    ctx.returns .badInput
  else
    let ctx :=
      if ctx.state.authDataStarted then ctx
      else
        { ctx with
            y := ctx.y.xorAt 0 [UInt8.ofNat (ctx.addLen / 256), UInt8.ofNat ctx.addLen]
            state := { ctx.state with authDataStarted := true } }
    let loop := ccmUpdateAdLoop cipher sizeMod add.length ctx add
    if loop.ret ≠ .ok then
      loop
    else if loop.ctx.processed = loop.ctx.addLen then
      { loop with
          ctx :=
            { loop.ctx with
                state := { loop.ctx.state with authDataFinished := true }
                processed := 0 } }
    else
      loop

/-! ## The message -/

def mbedtlsCcmCrypt (offset : Nat) (input : ByteString) : CcmResult :=
  let log := [{ counter := ctx.ctr, offset := offset }]
  match cipher ctx.ctr with
  | .error e => { ctx.fails (.cipher e) with log := log }
  | .ok tmpBuf =>
    { ctx.returns .ok with
        output := Bytes.xor input (tmpBuf.toList.drop offset)
        log := log }

/-- The data is xored into `ctx->y`, encrypted at the end of a block and of the message. -/
def ccmAuthenticate (offset : Nat) (data : ByteString) (blockEnd : Bool) : CcmResult :=
  let ctx := { ctx with y := ctx.y.xorAt offset data }
  if blockEnd then encryptY cipher ctx else ctx.returns .ok

/-- The increment of the counter from byte `15 - i` back, with `left` bytes of it left. -/
def ccmIncrement (ctr : Block 16) (i : Nat) : Nat → Block 16
  | 0 => ctr
  | left + 1 =>
    let byte := ctr (Fin.ofNat 16 (15 - i)) + 1
    let ctr := ctr.store (15 - i) [byte]
    if byte ≠ 0 then ctr else ccmIncrement ctr (i + 1) left

/-- The branch of `mbedtls_ccm_update` for encryption, on the bytes of one block. -/
def ccmEncryptPiece (offset : Nat) (input : ByteString) (blockEnd : Bool) : CcmResult :=
  let authenticated := ccmAuthenticate cipher ctx offset input blockEnd
  if authenticated.ret ≠ .ok then authenticated
  else mbedtlsCcmCrypt cipher authenticated.ctx offset input

def ccmDecryptPiece (offset : Nat) (input : ByteString) (blockEnd : Bool) : CcmResult :=
  let crypted := mbedtlsCcmCrypt cipher ctx offset input
  if crypted.ret ≠ .ok then crypted
  else
    let authenticated := ccmAuthenticate cipher crypted.ctx offset crypted.output blockEnd
    { crypted with ret := authenticated.ret, ctx := authenticated.ctx }

/-- One round of `mbedtls_ccm_update` on `input`; `ctx->processed` counts it already. -/
def ccmUpdateRound (offset : Nat) (input : ByteString) : CcmResult :=
  let blockEnd := decide (input.length + offset = 16 ∨ ctx.processed = ctx.plaintextLen)
  let crypted :=
    if ctx.mode.isEncrypt then ccmEncryptPiece cipher ctx offset input blockEnd
    else if ctx.mode.isDecrypt then ccmDecryptPiece cipher ctx offset input blockEnd
    else ctx.returns .ok
  if crypted.ret ≠ .ok then
    crypted
  else if blockEnd then
    { crypted with
        ctx := { crypted.ctx with ctr := ccmIncrement crypted.ctx.ctr 0 crypted.ctx.q } }
  else
    crypted

/-- The `while` loop of `mbedtls_ccm_update`; a round takes a byte at least, which bounds the fuel.
-/
def ccmUpdateLoop : Nat → MbedtlsCcmContext → ByteString → CcmResult
  | 0, ctx, _ => ctx.returns .ok
  | fuel + 1, ctx, input =>
    if input.length = 0 then
      ctx.returns .ok
    else
      let offset := ctx.processed % 16
      let useLen := min (16 - offset) input.length
      let ctx := { ctx with processed := (ctx.processed + useLen) % sizeMod }
      let round := ccmUpdateRound cipher ctx offset (input.take useLen)
      if round.ret ≠ .ok then
        round
      else
        let rest := ccmUpdateLoop fuel round.ctx (input.drop useLen)
        { rest with output := round.output ++ rest.output, log := round.log ++ rest.log }

def mbedtlsCcmUpdate (input : ByteString) (outputSize : Nat) : CcmResult :=
  if ctx.state.error then
    ctx.returns .badInput
  else if ctx.tagLen ≠ 0 ∧ (ctx.processed + input.length) % sizeMod > ctx.plaintextLen then
    ctx.returns .badInput
  else if outputSize < input.length then
    ctx.returns .badInput
  else
    ccmUpdateLoop cipher sizeMod input.length ctx input

/-! ## The tag -/

def mbedtlsCcmClearState : MbedtlsCcmContext :=
  { ctx with state := .clear, y := Block.zero, ctr := Block.zero }

/-- The output is the tag. -/
def mbedtlsCcmFinish (tagLen : Nat) : CcmResult :=
  if ctx.state.error then
    ctx.returns .corruptionDetected
  else if ctx.state.started = false then
    ctx.returns .badInput
  else if ctx.state.lengthsSet = false then
    ctx.returns .badInput
  else if ctx.addLen > 0 ∧ ctx.state.authDataFinished = false then
    ctx.returns .badInput
  else if ctx.plaintextLen > 0 ∧ ctx.processed ≠ ctx.plaintextLen then
    ctx.returns .badInput
  else if tagLen ≠ ctx.tagLen then
    ctx.returns .badInput
  else
    let ctx := { ctx with ctr := ctx.ctr.store (16 - ctx.q) (List.replicate ctx.q 0) }
    let crypted := mbedtlsCcmCrypt cipher ctx 0 ctx.y.toList
    if crypted.ret ≠ .ok then
      crypted
    else
      { crypted with
          ctx := mbedtlsCcmClearState crypted.ctx
          output := crypted.output.take tagLen }

end Calls

/-! ## Sequences of calls -/

/-- The calls between keying a context and `mbedtls_ccm_finish`. -/
inductive CcmCall where
  | starts (mode : CcmMode) (iv : ByteString)
  | setLengths (totalAdLen plaintextLen tagLen : Nat)
  | updateAd (add : ByteString)
  | update (input : ByteString) (outputSize : Nat)

def ccmCall (cipher : BlockCipher) (sizeMod : Nat) (ctx : MbedtlsCcmContext) :
    CcmCall → CcmResult
  | .starts mode iv => mbedtlsCcmStarts cipher ctx mode iv
  | .setLengths totalAdLen plaintextLen tagLen =>
    mbedtlsCcmSetLengths cipher ctx totalAdLen plaintextLen tagLen
  | .updateAd add => mbedtlsCcmUpdateAd cipher sizeMod ctx add
  | .update input outputSize => mbedtlsCcmUpdate cipher sizeMod ctx input outputSize

def ccmMachine (sizeMod : Nat) :
    Machine.StepFn MbedtlsCcmContext (CcmCall × BlockCipher) CcmResult :=
  fun ctx a =>
    let r := ccmCall a.2 sizeMod ctx a.1
    some (r.ctx, r)

end TfPsaCrypto
