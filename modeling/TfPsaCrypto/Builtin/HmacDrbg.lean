import TfPsaCrypto.Library.HmacDrbg

/-!
# HMAC_DRBG

`hmac_drbg.c`. The HMAC of `md.c` is a keyed function with a context, arbitrary between
`mbedtls_md_hmac_finish` and the next reset. The entropy source may fail. `none` is `NULL`.
-/

namespace TfPsaCrypto

open Bytes

namespace HmacDrbg

/-! ## HMAC contexts -/

structure Md where
  size : Nat
  hmac : ByteString → ByteString → ByteString
  leftover : ByteString → ByteString → ByteString
  size_pos : 0 < size
  length_hmac : ∀ key data, (hmac key data).length = size

structure MdContext where
  key : ByteString
  data : ByteString

def mdHmacStarts (key : ByteString) : MdContext := { key := key, data := [] }

def mdHmacReset (ctx : MdContext) : MdContext := { ctx with data := [] }

def mdHmacUpdate (ctx : MdContext) (input : ByteString) : MdContext :=
  { ctx with data := ctx.data ++ input }

def mdHmacFinish (md : Md) (ctx : MdContext) : MdContext × ByteString :=
  ({ ctx with data := md.leftover ctx.key ctx.data }, md.hmac ctx.key ctx.data)

/-! ## The generator -/

inductive Error where
  | requestTooBig
  | inputTooBig
  | entropySourceFailed
  deriving DecidableEq, Repr

def maxInput : Nat := 256

def maxRequest : Nat := 1024

def maxSeedInput : Nat := 384

def prOn : Int := 1

/-- `mbedtls_hmac_drbg_context`; `v` is the first `md_len` bytes of `V`, and `pEntropy` is `none`
where `f_entropy` is `NULL`. -/
structure Context (σ : Type) where
  mdCtx : MdContext
  v : ByteString
  reseedCounter : Int
  entropyLen : Nat
  predictionResistance : Int
  reseedInterval : Int
  pEntropy : Option σ

variable {σ : Type} (md : Md)

def hmacDrbgInit : Context σ :=
  { mdCtx := ⟨[], []⟩, v := List.replicate md.size 0, reseedCounter := 0, entropyLen := 0
    predictionResistance := 0, reseedInterval := 10000, pEntropy := none }

/-- The body of the loop of `mbedtls_hmac_drbg_update`. -/
def updateRound (rounds : Nat) (additional : ByteString) (ctx : Context σ) (sep : Nat) :
    Context σ :=
  -- Step 1 or 4
  let mdCtx := mdHmacReset ctx.mdCtx
  let mdCtx := mdHmacUpdate mdCtx ctx.v
  let mdCtx := mdHmacUpdate mdCtx [UInt8.ofNat sep]
  let mdCtx := if rounds = 2 then mdHmacUpdate mdCtx additional else mdCtx
  let k := (mdHmacFinish md mdCtx).2
  -- Step 2 or 5
  let mdCtx := mdHmacStarts k
  let mdCtx := mdHmacUpdate mdCtx ctx.v
  { ctx with mdCtx := (mdHmacFinish md mdCtx).1, v := (mdHmacFinish md mdCtx).2 }

def hmacDrbgUpdate (ctx : Context σ) (additional : Option ByteString) : Context σ :=
  let rounds := if additional ≠ none ∧ (additional.getD []).length ≠ 0 then 2 else 1
  (List.range rounds).foldl (updateRound md rounds (additional.getD [])) ctx

def hmacDrbgSeedBuf (ctx : Context σ) (data : ByteString) : Context σ :=
  -- V is all 0 at this point
  let ctx := { ctx with mdCtx := mdHmacStarts ctx.v }
  let ctx := { ctx with v := List.replicate md.size 0x01 }
  hmacDrbgUpdate md ctx (some data)

variable (sizeMod : Nat) (fEntropy : Drbg.Source σ)

/-- The second call of the entropy source in `hmac_drbg_reseed_core`. -/
def gatherNonce (useNonce : Bool) (entropyLen : Nat) (pEntropy : σ) : Option ByteString × σ :=
  if useNonce then
    match fEntropy pEntropy (entropyLen / 2) with
    | (none, pEntropy) => (none, pEntropy)
    | (some nonce, pEntropy) => (some nonce.toList, pEntropy)
  else (some [], pEntropy)

/-- `none` is a call through a null pointer. -/
def hmacDrbgReseedCore (ctx : Context σ) (additional : Option ByteString) (useNonce : Bool) :
    Option (Context σ × Except Error Unit) :=
  let len := (additional.getD []).length
  let totalEntropyLen :=
    if useNonce = false then ctx.entropyLen else ctx.entropyLen * 3 % sizeMod / 2
  if len > maxInput ∨ (totalEntropyLen + len) % sizeMod > maxSeedInput then
    some (ctx, .error .inputTooBig)
  else
    match ctx.pEntropy with
    | none => none
    | some pEntropy =>
      match fEntropy pEntropy ctx.entropyLen with
      | (none, pEntropy) =>
        some ({ ctx with pEntropy := some pEntropy }, .error .entropySourceFailed)
      | (some entropy, pEntropy) =>
        match gatherNonce fEntropy useNonce ctx.entropyLen pEntropy with
        | (none, pEntropy) =>
          some ({ ctx with pEntropy := some pEntropy }, .error .entropySourceFailed)
        | (some nonce, pEntropy) =>
          let seed := entropy.toList ++ nonce
          let seed := seed ++ additional.getD []
          let ctx := hmacDrbgUpdate md { ctx with pEntropy := some pEntropy } (some seed)
          some ({ ctx with reseedCounter := 0 }, .ok ())

def hmacDrbgReseed (ctx : Context σ) (additional : Option ByteString) :
    Option (Context σ × Except Error Unit) :=
  hmacDrbgReseedCore md sizeMod fEntropy ctx additional false

def hmacDrbgSeed (ctx : Context σ) (pEntropy : σ) (custom : Option ByteString) :
    Option (Context σ × Except Error Unit) :=
  -- V is all 0 at this point
  let ctx := { ctx with mdCtx := mdHmacStarts ctx.v }
  let ctx := { ctx with v := List.replicate md.size 0x01, pEntropy := some pEntropy }
  let entropyLen :=
    if ctx.entropyLen = 0 then if md.size ≤ 20 then 16 else if md.size ≤ 28 then 24 else 32
    else ctx.entropyLen
  hmacDrbgReseedCore md sizeMod fEntropy { ctx with entropyLen := entropyLen } custom true

def generateBytes (ctx : Context σ) (left : Nat) : Context σ × ByteString :=
  if left = 0 then (ctx, [])
  else
    let useLen := if left > md.size then md.size else left
    let mdCtx := mdHmacReset ctx.mdCtx
    let mdCtx := mdHmacUpdate mdCtx ctx.v
    let v := (mdHmacFinish md mdCtx).2
    let rest := generateBytes { ctx with mdCtx := (mdHmacFinish md mdCtx).1, v := v }
      (left - useLen)
    (rest.1, v.take useLen ++ rest.2)
termination_by left
decreasing_by
  have := md.size_pos
  split <;> omega

structure Result where
  ret : Except Error Unit
  output : ByteString
  reseeded : Bool

/-- `mbedtls_hmac_drbg_random_with_add`, from step 2 on. -/
def randomTail (ctx : Context σ) (outLen : Nat) (additional : Option ByteString)
    (reseeded : Bool) : Context σ × Result :=
  let ctx :=
    if additional ≠ none ∧ (additional.getD []).length ≠ 0 then hmacDrbgUpdate md ctx additional
    else ctx
  let generated := generateBytes md ctx outLen
  let ctx := hmacDrbgUpdate md generated.1 additional
  ({ ctx with reseedCounter := ctx.reseedCounter + 1 }, ⟨.ok (), generated.2, reseeded⟩)

def hmacDrbgRandomWithAdd (ctx : Context σ) (outLen : Nat) (additional : Option ByteString) :
    Option (Context σ × Result) :=
  if outLen > maxRequest then some (ctx, ⟨.error .requestTooBig, [], false⟩)
  else if (additional.getD []).length > maxInput then
    some (ctx, ⟨.error .inputTooBig, [], false⟩)
  else if ctx.pEntropy ≠ none ∧
      (ctx.predictionResistance = prOn ∨ ctx.reseedCounter ≥ ctx.reseedInterval) then
    match hmacDrbgReseed md sizeMod fEntropy ctx additional with
    | none => none
    | some (ctx, .error e) => some (ctx, ⟨.error e, [], false⟩)
    -- the length of the additional input is now 0
    | some (ctx, .ok _) => some (randomTail md ctx outLen (additional.map fun _ => []) true)
  else some (randomTail md ctx outLen additional false)

/-! ## Sequences of calls -/

inductive Call where
  | randomWithAdd (outLen : Nat) (additional : Option ByteString)
  | reseed (additional : Option ByteString)
  | update (additional : Option ByteString)
  | setPredictionResistance (resistance : Int)
  | setEntropyLen (len : Nat)
  | setReseedInterval (interval : Int)

def drbgMachine : Machine.StepFn (Context σ) Call Result :=
  fun ctx call =>
    match call with
    | .randomWithAdd outLen additional =>
      hmacDrbgRandomWithAdd md sizeMod fEntropy ctx outLen additional
    | .reseed additional =>
      match hmacDrbgReseed md sizeMod fEntropy ctx additional with
      | none => none
      | some (ctx, .error e) => some (ctx, ⟨.error e, [], false⟩)
      | some (ctx, .ok _) => some (ctx, ⟨.ok (), [], true⟩)
    | .update additional => some (hmacDrbgUpdate md ctx additional, ⟨.ok (), [], false⟩)
    | .setPredictionResistance resistance =>
      some ({ ctx with predictionResistance := resistance }, ⟨.ok (), [], false⟩)
    | .setEntropyLen len => some ({ ctx with entropyLen := len }, ⟨.ok (), [], false⟩)
    | .setReseedInterval interval =>
      some ({ ctx with reseedInterval := interval }, ⟨.ok (), [], false⟩)

end HmacDrbg

end TfPsaCrypto
