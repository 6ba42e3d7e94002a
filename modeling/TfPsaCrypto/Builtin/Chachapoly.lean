import TfPsaCrypto.Builtin.Chacha20
import TfPsaCrypto.Library.Machine

/-!
# ChaCha20-Poly1305

`mbedtls_chachapoly_starts`, `mbedtls_chachapoly_update_aad`, `mbedtls_chachapoly_update`
and `mbedtls_chachapoly_finish` of `chachapoly.c`. The functions of `poly1305.c` are a
parameter.
-/

namespace TfPsaCrypto

open Bytes

/-- `mbedtls_poly1305_starts`, `mbedtls_poly1305_update` and `mbedtls_poly1305_finish`: each
returns the context it leaves, or an error. -/
structure Poly1305Functions (σ : Type*) where
  starts : σ → ByteString → Except Int σ
  update : σ → ByteString → Except Int σ
  finish : σ → Except Int (σ × ByteString)

inductive ChachapolyState where
  | init
  | aad
  | ciphertext
  | finished
  deriving DecidableEq, Repr

inductive ChachapolyMode where
  | encrypt
  | decrypt
  deriving DecidableEq, Repr

structure MbedtlsChachapolyContext (σ : Type*) where
  chacha20Ctx : MbedtlsChacha20Context
  poly1305Ctx : σ
  aadLen : Nat
  ciphertextLen : Nat
  state : ChachapolyState
  mode : ChachapolyMode

/-- `mbedtls_chachapoly_init`, with what `mbedtls_poly1305_init` leaves. -/
def MbedtlsChachapolyContext.init {σ : Type*} (poly1305Ctx : σ) : MbedtlsChachapolyContext σ :=
  { chacha20Ctx := .init, poly1305Ctx := poly1305Ctx, aadLen := 0, ciphertextLen := 0,
    state := .init, mode := .encrypt }

inductive ChachapolyRet where
  | ok
  | badState
  | poly1305 (code : Int)
  deriving DecidableEq, Repr

structure ChachapolyResult (σ : Type*) where
  ret : ChachapolyRet
  ctx : MbedtlsChachapolyContext σ
  output : ByteString
  log : List (CounterStream.Feed Chacha20State)

section Calls

variable {σ : Type*} (poly1305 : Poly1305Functions σ) (ctx : MbedtlsChachapolyContext σ)

def MbedtlsChachapolyContext.returns (ret : ChachapolyRet) : ChachapolyResult σ :=
  { ret := ret, ctx := ctx, output := [], log := [] }

def chachapolyPoly1305Update (input : ByteString) : ChachapolyResult σ :=
  match poly1305.update ctx.poly1305Ctx input with
  | .error e => ctx.returns (.poly1305 e)
  | .ok p => { ctx with poly1305Ctx := p }.returns .ok

/-- `chachapoly_pad_aad` and `chachapoly_pad_ciphertext`. -/
def chachapolyPad (len : Nat) : ChachapolyResult σ :=
  if len % 16 = 0 then ctx.returns .ok
  else chachapolyPoly1305Update poly1305 ctx (List.replicate (16 - len % 16) 0)

/-- The key of Poly1305 is the key stream of counter 0. -/
def mbedtlsChachapolyStarts (nonce : ByteString) (mode : ChachapolyMode) : ChachapolyResult σ :=
  let generated := mbedtlsChacha20Update (mbedtlsChacha20Starts ctx.chacha20Ctx nonce 0)
    (List.replicate 64 0)
  let ctx := { ctx with chacha20Ctx := generated.ctx }
  match poly1305.starts ctx.poly1305Ctx (generated.output.take 32) with
  | .error e => { ctx.returns (.poly1305 e) with log := generated.log }
  | .ok p =>
    { { ctx with
          poly1305Ctx := p
          aadLen := 0
          ciphertextLen := 0
          state := .aad
          mode := mode }.returns .ok with
        log := generated.log }

def mbedtlsChachapolyUpdateAad (aad : ByteString) : ChachapolyResult σ :=
  if ctx.state ≠ .aad then
    ctx.returns .badState
  else
    chachapolyPoly1305Update poly1305
      { ctx with aadLen := (ctx.aadLen + aad.length) % 2 ^ 64 } aad

/-- The encryption or decryption of `mbedtls_chachapoly_update`. -/
def chachapolyCrypt (input : ByteString) : ChachapolyResult σ :=
  let crypted := mbedtlsChacha20Update ctx.chacha20Ctx input
  if ctx.mode = .encrypt then
    let authenticated := chachapolyPoly1305Update poly1305
      { ctx with chacha20Ctx := crypted.ctx } crypted.output
    { authenticated with output := crypted.output, log := crypted.log }
  else
    let authenticated := chachapolyPoly1305Update poly1305 ctx input
    if authenticated.ret ≠ .ok then authenticated
    else
      { authenticated with
          ctx := { authenticated.ctx with chacha20Ctx := crypted.ctx }
          output := crypted.output
          log := crypted.log }

def mbedtlsChachapolyUpdate (input : ByteString) : ChachapolyResult σ :=
  if ctx.state ≠ .aad ∧ ctx.state ≠ .ciphertext then
    ctx.returns .badState
  else
    let padded :=
      if ctx.state = .aad then
        chachapolyPad poly1305 { ctx with state := .ciphertext } ctx.aadLen
      else ctx.returns .ok
    if padded.ret ≠ .ok then padded
    else
      chachapolyCrypt poly1305
        { padded.ctx with ciphertextLen := (padded.ctx.ciphertextLen + input.length) % 2 ^ 64 }
        input

/-- The output is the tag. -/
def mbedtlsChachapolyFinish : ChachapolyResult σ :=
  if ctx.state = .init then
    ctx.returns .badState
  else
    let padded :=
      if ctx.state = .aad then chachapolyPad poly1305 ctx ctx.aadLen
      else if ctx.state = .ciphertext then chachapolyPad poly1305 ctx ctx.ciphertextLen
      else ctx.returns .ok
    if padded.ret ≠ .ok then padded
    else
      let ctx := { padded.ctx with state := .finished }
      let lengths := chachapolyPoly1305Update poly1305 ctx
        (toLE 8 ctx.aadLen ++ toLE 8 ctx.ciphertextLen)
      if lengths.ret ≠ .ok then lengths
      else
        match poly1305.finish lengths.ctx.poly1305Ctx with
        | .error e => lengths.ctx.returns (.poly1305 e)
        | .ok (p, mac) =>
          { { lengths.ctx with poly1305Ctx := p }.returns .ok with output := mac }

end Calls

/-! ## Sequences of calls -/

inductive ChachapolyCall where
  | updateAad (aad : ByteString)
  | update (input : ByteString)
  | finish

def chachapolyCall {σ : Type*} (poly1305 : Poly1305Functions σ)
    (ctx : MbedtlsChachapolyContext σ) : ChachapolyCall → ChachapolyResult σ
  | .updateAad aad => mbedtlsChachapolyUpdateAad poly1305 ctx aad
  | .update input => mbedtlsChachapolyUpdate poly1305 ctx input
  | .finish => mbedtlsChachapolyFinish poly1305 ctx

def chachapolyMachine (σ : Type*) :
    Machine.StepFn (MbedtlsChachapolyContext σ) (ChachapolyCall × Poly1305Functions σ)
      (ChachapolyResult σ) :=
  fun ctx a =>
    let r := chachapolyCall a.2 ctx a.1
    some (r.ctx, r)

end TfPsaCrypto
