import TfPsaCrypto.Library.Bytes
import TfPsaCrypto.Library.Fallible
import TfPsaCrypto.Library.Machine

/-!
# The entropy module

`entropy.c`. The sources, the hash functions and the non-volatile seed belong to the environment,
whose state is threaded through every call. A log records what the sources gave, what was added to
the accumulator and what was output.
-/

namespace TfPsaCrypto

open Bytes Fallible

/-! ## Data -/

def mbedtlsEntropyMaxSources : Nat := 4

def mbedtlsEntropySourceStrong : Int := 1

inductive EntropyError where
  | sourceFailed
  | maxSources
  | noSourcesDefined
  | noStrongSource
  | fileIoError
  | md
  | source (code : Int)
  deriving DecidableEq, Repr

/-- The configuration, and what is outside the module: `poll` is the callback of a source, `mdOp`
says whether the next hash operation succeeds. -/
structure EntropyEnv (κ σ : Type) where
  sizeMod : Nat
  blockSize : Nat
  nvSeed : Bool
  initialSources : List (κ × Nat × Int)
  initialSources_le : initialSources.length ≤ mbedtlsEntropyMaxSources
  md : ByteString → ByteString
  mdOp : σ → Bool × σ
  poll : κ → σ → Except Int ByteString × σ
  nvSeedWrite : ByteString → σ → Bool × σ

structure EntropySource (κ : Type) where
  fSource : κ
  size : Nat
  threshold : Nat
  strong : Int

/-- The hash context is `none` unless it is started. -/
structure MbedtlsEntropyContext (κ : Type) where
  accumulator : Option ByteString
  accumulatorStarted : Bool
  source : List (EntropySource κ)
  initialEntropyRun : Bool

inductive EntropyEvent where
  | added (threshold : Nat) (strong : Int)
  | polled (i : Nat)
  | absorbed (sourceId : Nat) (data : ByteString)
  | released (output : ByteString)
  | seedWritten
  deriving DecidableEq

structure EntropyState (κ σ : Type) where
  ctx : MbedtlsEntropyContext κ
  env : σ
  log : List EntropyEvent

section Model

variable {κ σ : Type} (e : EntropyEnv κ σ)

abbrev EntropyProg (κ σ α : Type) := Fallible (EntropyState κ σ) EntropyError α

def EntropyState.setCtx (s : EntropyState κ σ)
    (f : MbedtlsEntropyContext κ → MbedtlsEntropyContext κ) : EntropyState κ σ :=
  { s with ctx := f s.ctx }

def EntropyState.event (s : EntropyState κ σ) (ev : EntropyEvent) : EntropyState κ σ :=
  { s with log := s.log ++ [ev] }

/-! ## Hash operations -/

def nvSeedWrite (buf : ByteString) : EntropyProg κ σ Unit := fun s =>
  match e.nvSeedWrite buf s.env with
  | (true, env) => (.ok (), { s with env := env }.event .seedWritten)
  | (false, env) => (.error .fileIoError, { s with env := env })

end Model

end TfPsaCrypto
