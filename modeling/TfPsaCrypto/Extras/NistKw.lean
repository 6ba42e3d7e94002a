import TfPsaCrypto.Core.Types
import TfPsaCrypto.Library.Blocks

/-!
# NIST key wrapping

`mbedtls_nist_kw_wrap` and `mbedtls_nist_kw_unwrap` of `nist_kw.c`. The calls of the PSA API are
the environment: the attributes of the key, the ECB operation on the key, and whether its calls
succeed. `size_t` has 64 bits, so that all limits of the code are compiled in.
-/

namespace TfPsaCrypto

open Bytes Blocks

namespace NistKw

/-! ## The environment -/

def sizeMod : Nat := 2 ^ 64

inductive Mode where
  | kw
  | kwp
  | other (mode : Nat)
  deriving DecidableEq, Repr

def psaKeyTypeAes : PsaKeyType := 0x2400

/-- A call of `psa_cipher_update` that failed, and what it left in `*output_length`. -/
structure UpdateFailure where
  error : PsaError
  outputLength : Nat

/-- `psa_cipher_update` in ECB mode on one block; the number is that of the call. -/
abbrev Cipher := Nat → Block 16 → Except UpdateFailure (Block 16)

structure Env where
  keyAttributes : Except PsaError PsaKeyType
  encryptSetup : PsaStatus
  decryptSetup : PsaStatus
  encrypt : Cipher
  decrypt : Cipher
  finish : PsaStatus

def nistKwIcv1 : ByteString := [0xA6, 0xA6, 0xA6, 0xA6, 0xA6, 0xA6, 0xA6, 0xA6]

def nistKwIcv2 : ByteString := [0xA6, 0x59, 0x59, 0xA6]

def calcAXorT (a : ByteString) (t : Nat) : ByteString :=
  Bytes.xor a (toBE 8 t)

def verifyInput (env : Env) : PsaStatus :=
  match env.keyAttributes with
  | .error e => e.status
  | .ok type => if type ≠ psaKeyTypeAes then .errorInvalidArgument else .success

/-- The status, the output buffer and `*output_length` after a call. -/
structure Result where
  status : PsaStatus
  output : ByteString
  outputLength : Nat
  deriving DecidableEq, Repr

def zeroFirst (n : Nat) (out : ByteString) : ByteString := List.replicate n 0 ++ out.drop n

/-- The semiblock in `A`, the other semiblocks, and the offset of the pointer among them. -/
structure Work where
  a : ByteString
  r : ByteString
  offset : Nat
  deriving DecidableEq, Repr

/-! ## Wrapping -/

def wrapNext (length offset : Nat) : Nat := if offset + 8 ≥ length then 0 else offset + 8

def wrapStep (encrypt : Cipher) (t : Nat) (w : Work) : Except UpdateFailure Work :=
  match encrypt t (Block.ofList (w.a ++ slice w.r w.offset 8)) with
  | .error failure => .error failure
  | .ok outbuff =>
    .ok
      { a := calcAXorT (outbuff.toList.take 8) t
        r := storeAt w.r w.offset (outbuff.toList.drop 8)
        offset := wrapNext w.r.length w.offset }

/-- The loop of the wrapping function; `left` steps are left. -/
def wrapLoop (encrypt : Cipher) : Nat → Nat → Work → Except UpdateFailure Work
  | 0, _, w => .ok w
  | left + 1, t, w =>
    match wrapStep encrypt t w with
    | .error failure => .error failure
    | .ok w => wrapLoop encrypt left (t + 1) w

def padLength (inputLength : Nat) : Nat := if inputLength % 8 ≠ 0 then 8 - inputLength % 8 else 0

def wrapString (mode : Mode) (input : ByteString) (outputSize : Nat) :
    Except PsaStatus (ByteString × ByteString) :=
  if mode = .kw then
    if outputSize < (input.length + 8) % sizeMod then .error .errorBufferTooSmall
    else if input.length < 16 ∨ input.length > 0x1FFFFFFFFFFFFF8 ∨ input.length % 8 ≠ 0 then
      .error .errorInvalidArgument
    else .ok (nistKwIcv1, input)
  else
    let padlen := padLength input.length
    if outputSize < (input.length + 8 + padlen) % sizeMod then .error .errorBufferTooSmall
    else if input.length < 1 ∨ input.length > 0xFFFFFFFF then .error .errorInvalidArgument
    else .ok (nistKwIcv2 ++ toBE 4 input.length, input ++ List.replicate padlen 0)

/-- The `cleanup` of a call of `mbedtls_nist_kw_wrap` that fails. -/
def wrapFails (status : PsaStatus) (out : ByteString) : Result :=
  { status := status, output := zeroFirst out.length out, outputLength := 0 }

def mbedtlsNistKwWrap (env : Env) (mode : Mode) (input out : ByteString) : Result :=
  if verifyInput env ≠ .success then wrapFails (verifyInput env) out
  else if env.encryptSetup ≠ .success then wrapFails env.encryptSetup out
  else
    match wrapString mode input out.length with
    | .error status => wrapFails status out
    | .ok (a, r) =>
      let semiblocks := r.length / 8 + 1
      if mode = .kwp ∧ input.length ≤ 8 then
        match env.encrypt 1 (Block.ofList (a ++ r)) with
        | .error failure => wrapFails failure.error.status out
        | .ok block =>
          if env.finish ≠ .success then wrapFails env.finish out
          else ⟨.success, block.toList ++ out.drop 16, semiblocks * 8⟩
      else if semiblocks < 3 then wrapFails .errorInvalidArgument out
      else
        match wrapLoop env.encrypt (6 * (semiblocks - 1)) 1 ⟨a, r, 0⟩ with
        | .error failure => wrapFails failure.error.status out
        | .ok w => ⟨.success, w.a ++ w.r ++ out.drop (semiblocks * 8), semiblocks * 8⟩

/-! ## Unwrapping -/

def unwrapNext (length offset : Nat) : Nat := if offset = 0 then length - 8 else offset - 8

def unwrapStep (decrypt : Cipher) (t : Nat) (w : Work) : Except UpdateFailure Work :=
  match decrypt t (Block.ofList (calcAXorT w.a t ++ slice w.r w.offset 8)) with
  | .error failure => .error failure
  | .ok outbuff =>
    .ok
      { a := outbuff.toList.take 8
        r := storeAt w.r w.offset (outbuff.toList.drop 8)
        offset := unwrapNext w.r.length w.offset }

def unwrapLoop (decrypt : Cipher) : Nat → Work → Except UpdateFailure Work
  | 0, w => .ok w
  | t + 1, w =>
    match unwrapStep decrypt (t + 1) w with
    | .error failure => .error failure
    | .ok w => unwrapLoop decrypt t w

/-- What `unwrap`, or the branch for a single block, leaves: the status, `A`, the bytes written
to the output buffer, and `*output_length`. -/
structure Unwrapped where
  status : PsaStatus
  a : ByteString
  output : ByteString
  outputLength : Nat

def unwrap (env : Env) (input : ByteString) (semiblocks : Nat) : Unwrapped :=
  let zeros := List.replicate ((semiblocks - 1) * 8) 0
  if semiblocks < 3 then ⟨.errorInvalidArgument, [], zeros, 0⟩
  else
    match unwrapLoop env.decrypt (6 * (semiblocks - 1))
        ⟨input.take 8, slice input 8 ((semiblocks - 1) * 8), (semiblocks - 2) * 8⟩ with
    | .error failure => ⟨failure.error.status, [], zeros, failure.outputLength⟩
    | .ok w =>
      if env.finish ≠ .success then ⟨env.finish, w.a, zeros, 16⟩
      else ⟨.success, w.a, w.r, (semiblocks - 1) * 8⟩

/-- The branch of `mbedtls_nist_kw_unwrap` for a single block. -/
def unwrapSingle (env : Env) (input : ByteString) : Unwrapped :=
  match env.decrypt 1 (Block.ofList (input.take 16)) with
  | .error failure => ⟨failure.error.status, [], [], failure.outputLength⟩
  | .ok outbuff =>
    if env.finish ≠ .success then ⟨env.finish, [], [], 16⟩
    else ⟨.success, outbuff.toList.take 8, outbuff.toList.drop 8, 8⟩

/-- The checks of KWP on the plaintext: the status, `Plen` and `padlen`. -/
def kwpCheck (inputLength : Nat) (u : Unwrapped) : PsaStatus × Nat × Nat :=
  let ret := if u.a.take 4 ≠ nistKwIcv2 then PsaStatus.errorInvalidSignature else .success
  let plen := ofBE (slice u.a 4 4)
  -- wraps around where plen is larger than the plaintext
  let padlen := (inputLength - 8 + (sizeMod - plen)) % sizeMod
  let ret := if padlen > 7 then .errorInvalidSignature else ret
  let padlen := padlen % 8
  let last := u.output.drop (u.outputLength - 8)
  let ret :=
    if (last.take 8).drop (8 - padlen) ≠ List.replicate padlen 0 then .errorInvalidSignature
    else ret
  (ret, plen, padlen)

/-- The `cleanup` of a call of `mbedtls_nist_kw_unwrap` that fails. -/
def unwrapFails (status : PsaStatus) (written : ByteString) (outputLength : Nat)
    (out : ByteString) : Result :=
  { status := status
    output := zeroFirst outputLength (written ++ out.drop written.length)
    outputLength := 0 }

def unwrapSucceeds (written : ByteString) (outputLength : Nat) (out : ByteString) : Result :=
  ⟨.success, written ++ out.drop written.length, outputLength⟩

def mbedtlsNistKwUnwrap (env : Env) (mode : Mode) (input out : ByteString) : Result :=
  if verifyInput env ≠ .success then unwrapFails (verifyInput env) [] 0 out
  else if env.decryptSetup ≠ .success then unwrapFails env.decryptSetup [] 0 out
  else if out.length < (input.length + (sizeMod - 8)) % sizeMod then
    unwrapFails .errorBufferTooSmall [] 0 out
  else if mode = .kw then
    if input.length < 24 ∨ input.length > 0x200000000000000 ∨ input.length % 8 ≠ 0 then
      unwrapFails .errorInvalidArgument [] 0 out
    else
      let u := unwrap env input (input.length / 8)
      if u.status ≠ .success then unwrapFails u.status u.output u.outputLength out
      else if nistKwIcv1 ≠ u.a then unwrapFails .errorInvalidSignature u.output u.outputLength out
      else unwrapSucceeds u.output u.outputLength out
  else if mode = .kwp then
    if input.length < 16 ∨ input.length > 0x100000000 ∨ input.length % 8 ≠ 0 then
      unwrapFails .errorInvalidArgument [] 0 out
    else
      let u := if input.length = 16 then unwrapSingle env input
        else unwrap env input (input.length / 8)
      if u.status ≠ .success then unwrapFails u.status u.output u.outputLength out
      else
        let check := kwpCheck input.length u
        if check.1 ≠ .success then unwrapFails check.1 u.output u.outputLength out
        else
          unwrapSucceeds (storeAt u.output check.2.1 (List.replicate check.2.2 0)) check.2.1 out
  else unwrapFails .errorNotSupported [] 0 out

end NistKw

end TfPsaCrypto
