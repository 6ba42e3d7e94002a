import TfPsaCrypto.Library.CtrDrbg

/-!
# CTR_DRBG

`ctr_drbg.c`, with the AES functions as an arbitrary block cipher. A read or a write beyond the end
of the buffer of `block_cipher_df` gives `none`. The entropy source may fail at any call.
-/

namespace TfPsaCrypto

open Bytes Blocks

namespace CtrDrbg

/-! ## Counters -/

/-- The loop of `mbedtls_ctr_increment_counter`, from word `i` on. -/
def incrementWords : Nat → ByteString → ByteString
  | 0, n => storeAt n 0 (toBE 4 ((ofBE (slice n 0 4) + 1) % 2 ^ 32))
  | i + 1, n =>
    let x := (ofBE (slice n ((i + 1) * 4) 4) + 1) % 2 ^ 32
    let n := storeAt n ((i + 1) * 4) (toBE 4 x)
    if x ≠ 0 then n else incrementWords i n

def ctrIncrementCounter (n : Block 16) : Block 16 := Block.ofList (incrementWords 3 n.toList)

/-! ## The derivation function -/

inductive Error where
  | requestTooBig
  | inputTooBig
  | entropySourceFailed
  deriving DecidableEq, Repr

def maxInput : Nat := 256

def maxRequest : Nat := 1024

def maxSeedInput : Nat := 384

/-- The configuration: `MBEDTLS_CTR_DRBG_KEYSIZE` is 16 or 32. -/
structure Config where
  keyBlocks : Nat
  keyBlocks_eq : keyBlocks = 1 ∨ keyBlocks = 2

def Config.keySize (cfg : Config) : Nat := 16 * cfg.keyBlocks

/-- `MBEDTLS_CTR_DRBG_SEEDLEN`; `keyBlocks + 1` blocks. -/
def Config.seedLen (cfg : Config) : Nat := cfg.keySize + 16

def writeAt (buf : ByteString) (off : Nat) (data : ByteString) : Option ByteString :=
  if off + data.length ≤ buf.length then some (storeAt buf off data) else none

variable (cfg : Config) (aes : ByteString → Block 16 → Block 16)

/-- The inner loop of `block_cipher_df`; `p` is what is left of the buffer. -/
def dfChain (f : Block 16 → Block 16) (chain : Block 16) (p : ByteString) (useLen : Nat) :
    Option (Block 16) :=
  if useLen = 0 then some chain
  else if p.length < 16 then none
  else
    dfChain f (f (chain.xor (Block.ofList (p.take 16)))) (p.drop 16)
      (useLen - if useLen ≥ 16 then 16 else useLen)
termination_by useLen
decreasing_by split <;> omega

def dfReduce (f : Block 16 → Block 16) (bufLen : Nat) : Nat → ByteString → Option ByteString
  | 0, _ => some []
  | left + 1, buf =>
    match dfChain f Block.zero buf bufLen with
    | none => none
    | some chain =>
      -- buf[3]++
      match writeAt buf 3 [buf.getD 3 0 + 1] with
      | none => none
      | some buf =>
        match dfReduce f bufLen left buf with
        | none => none
        | some tmp => some (chain.toList ++ tmp)

def dfExpand (f : Block 16 → Block 16) : Nat → Block 16 → ByteString
  | 0, _ => []
  | left + 1, iv => (f iv).toList ++ dfExpand f left (f iv)

def dfBuffer (data : ByteString) : Option ByteString :=
  let buf := List.replicate (maxSeedInput + 16 + 16) 0
  match writeAt buf 16 (toBE 4 data.length) with
  | none => none
  | some buf =>
    match writeAt buf 23 [UInt8.ofNat cfg.seedLen] with
    | none => none
    | some buf =>
      match writeAt buf 24 data with
      | none => none
      | some buf => writeAt buf (24 + data.length) [0x80]

def blockCipherDf (data : ByteString) : Option (Except Error ByteString) :=
  if data.length > maxSeedInput then some (.error .inputTooBig)
  else
    match dfBuffer cfg data with
    | none => none
    | some buf =>
      let bufLen := 16 + 8 + data.length + 1
      let key := (List.range cfg.keySize).map UInt8.ofNat
      match dfReduce (aes key) bufLen (cfg.keyBlocks + 1) buf with
      | none => none
      | some tmp =>
        some (.ok (dfExpand (aes (tmp.take cfg.keySize)) (cfg.keyBlocks + 1)
          (Block.ofList (slice tmp cfg.keySize 16))))

/-! ## The generator -/

/-- `mbedtls_ctr_drbg_context`; `key` is the key in the AES context. -/
structure Context (σ : Type) where
  counter : Block 16
  reseedCounter : Int
  predictionResistance : Int
  entropyLen : Nat
  reseedInterval : Int
  key : ByteString
  pEntropy : Option σ

variable {σ : Type}

def ctrDrbgInit : Context σ :=
  { counter := Block.zero, reseedCounter := -1, predictionResistance := 0, entropyLen := 0
    reseedInterval := 10000, key := [], pEntropy := none }

/-- The loop of `ctr_drbg_update_internal`; `left` blocks are left. -/
def updateBlocks (key : ByteString) : Nat → Block 16 → Block 16 × ByteString
  | 0, counter => (counter, [])
  | left + 1, counter =>
    let counter := ctrIncrementCounter counter
    let rest := updateBlocks key left counter
    (rest.1, (aes key counter).toList ++ rest.2)

def ctrDrbgUpdateInternal (ctx : Context σ) (data : ByteString) : Context σ :=
  let tmp := (updateBlocks aes ctx.key (cfg.keyBlocks + 1) ctx.counter).2
  let tmp := Bytes.xor tmp data
  { ctx with key := tmp.take cfg.keySize, counter := Block.ofList (tmp.drop cfg.keySize) }

def ctrDrbgUpdate (ctx : Context σ) (additional : ByteString) :
    Option (Context σ × Except Error Unit) :=
  if additional.length = 0 then some (ctx, .ok ())
  else
    match blockCipherDf cfg aes additional with
    | none => none
    | some (.error e) => some (ctx, .error e)
    | some (.ok addInput) => some (ctrDrbgUpdateInternal cfg aes ctx addInput, .ok ())

def ctrDrbgSetNonceLen (ctx : Context σ) (len : Nat) : Context σ × Except Error Unit :=
  if ctx.pEntropy ≠ none then (ctx, .error .entropySourceFailed)
  else if len > maxSeedInput then (ctx, .error .inputTooBig)
  else ({ ctx with reseedCounter := len }, .ok ())

variable (fEntropy : Drbg.Source σ)

/-- The second call of the entropy source in `mbedtls_ctr_drbg_reseed_internal`. -/
def gatherNonce (nonceLen : Nat) (pEntropy : σ) : Option ByteString × σ :=
  if nonceLen ≠ 0 then
    match fEntropy pEntropy nonceLen with
    | (none, pEntropy) => (none, pEntropy)
    | (some nonce, pEntropy) => (some nonce.toList, pEntropy)
  else (some [], pEntropy)

def ctrDrbgReseedInternal (ctx : Context σ) (additional : ByteString) (nonceLen : Nat) :
    Option (Context σ × Except Error Unit) :=
  if ctx.entropyLen > maxSeedInput then some (ctx, .error .inputTooBig)
  else if nonceLen > maxSeedInput - ctx.entropyLen then some (ctx, .error .inputTooBig)
  else if additional.length > maxSeedInput - ctx.entropyLen - nonceLen then
    some (ctx, .error .inputTooBig)
  else
    match ctx.pEntropy with
    | none => none
    | some pEntropy =>
      match fEntropy pEntropy ctx.entropyLen with
      | (none, pEntropy) =>
        some ({ ctx with pEntropy := some pEntropy }, .error .entropySourceFailed)
      | (some entropy, pEntropy) =>
        match gatherNonce fEntropy nonceLen pEntropy with
        | (none, pEntropy) =>
          some ({ ctx with pEntropy := some pEntropy }, .error .entropySourceFailed)
        | (some nonce, pEntropy) =>
          let ctx := { ctx with pEntropy := some pEntropy }
          let seed := entropy.toList ++ nonce
          let seed := seed ++ additional
          match blockCipherDf cfg aes seed with
          | none => none
          | some (.error e) => some (ctx, .error e)
          | some (.ok seed) =>
            let ctx := ctrDrbgUpdateInternal cfg aes ctx seed
            some ({ ctx with reseedCounter := 0 }, .ok ())

def ctrDrbgReseed (ctx : Context σ) (additional : ByteString) :
    Option (Context σ × Except Error Unit) :=
  ctrDrbgReseedInternal cfg aes fEntropy ctx additional 0

def goodNonceLen (entropyLen : Nat) : Nat :=
  if entropyLen ≥ cfg.keySize * 3 / 2 then 0 else (entropyLen + 1) / 2

def ctrDrbgSeed (ctx : Context σ) (pEntropy : σ) (custom : ByteString) :
    Option (Context σ × Except Error Unit) :=
  let ctx := { ctx with pEntropy := some pEntropy }
  let ctx := { ctx with entropyLen := if ctx.entropyLen = 0 then 32 else ctx.entropyLen }
  -- the nonce length, unless it is -1
  let nonceLen :=
    if ctx.reseedCounter ≥ 0 then ctx.reseedCounter.toNat else goodNonceLen cfg ctx.entropyLen
  let ctx := { ctx with key := List.replicate cfg.keySize 0 }
  ctrDrbgReseedInternal cfg aes fEntropy ctx custom nonceLen

def generateBytes (key : ByteString) (counter : Block 16) (outputLen : Nat) :
    Block 16 × ByteString :=
  if outputLen = 0 then (counter, [])
  else
    let counter := ctrIncrementCounter counter
    let tmp := (aes key counter).toList
    let useLen := if outputLen > 16 then 16 else outputLen
    let rest := generateBytes key counter (outputLen - useLen)
    (rest.1, tmp.take useLen ++ rest.2)
termination_by outputLen
decreasing_by split <;> omega

structure Result where
  ret : Except Error Unit
  output : ByteString
  reseeded : Bool

/-- The end of `mbedtls_ctr_drbg_random_with_add`, with `add_input`. -/
def randomTail (ctx : Context σ) (outputLen : Nat) (addInput : ByteString) (reseeded : Bool) :
    Context σ × Result :=
  let generated := generateBytes aes ctx.key ctx.counter outputLen
  let ctx := { ctx with counter := generated.1 }
  let ctx := ctrDrbgUpdateInternal cfg aes ctx addInput
  ({ ctx with reseedCounter := ctx.reseedCounter + 1 }, ⟨.ok (), generated.2, reseeded⟩)

/-- `mbedtls_ctr_drbg_random_with_add`, after the reseed. -/
def randomAdd (ctx : Context σ) (outputLen : Nat) (additional : ByteString) (reseeded : Bool) :
    Option (Context σ × Result) :=
  if additional.length > 0 then
    match blockCipherDf cfg aes additional with
    | none => none
    | some (.error e) => some (ctx, ⟨.error e, [], reseeded⟩)
    | some (.ok addInput) =>
      let ctx := ctrDrbgUpdateInternal cfg aes ctx addInput
      some (randomTail cfg aes ctx outputLen addInput reseeded)
  else some (randomTail cfg aes ctx outputLen (List.replicate cfg.seedLen 0) reseeded)

def ctrDrbgRandomWithAdd (ctx : Context σ) (outputLen : Nat) (additional : ByteString) :
    Option (Context σ × Result) :=
  if outputLen > maxRequest then some (ctx, ⟨.error .requestTooBig, [], false⟩)
  else if additional.length > maxInput then some (ctx, ⟨.error .inputTooBig, [], false⟩)
  else if ctx.reseedCounter ≥ ctx.reseedInterval ∨ ctx.predictionResistance ≠ 0 then
    match ctrDrbgReseed cfg aes fEntropy ctx additional with
    | none => none
    | some (ctx, .error e) => some (ctx, ⟨.error e, [], false⟩)
    -- the length of the additional input is now 0
    | some (ctx, .ok _) => randomAdd cfg aes ctx outputLen [] true
  else randomAdd cfg aes ctx outputLen additional false

/-! ## Sequences of calls -/

inductive Call where
  | randomWithAdd (outputLen : Nat) (additional : ByteString)
  | reseed (additional : ByteString)
  | update (additional : ByteString)
  | setPredictionResistance (resistance : Int)
  | setEntropyLen (len : Nat)
  | setReseedInterval (interval : Int)

def plain (reseeded : Bool) : Option (Context σ × Except Error Unit) → Option (Context σ × Result)
  | none => none
  | some (ctx, .error e) => some (ctx, ⟨.error e, [], false⟩)
  | some (ctx, .ok _) => some (ctx, ⟨.ok (), [], reseeded⟩)

def drbgMachine : Machine.StepFn (Context σ) Call Result :=
  fun ctx call =>
    match call with
    | .randomWithAdd outputLen additional =>
      ctrDrbgRandomWithAdd cfg aes fEntropy ctx outputLen additional
    | .reseed additional => plain true (ctrDrbgReseed cfg aes fEntropy ctx additional)
    | .update additional => plain false (ctrDrbgUpdate cfg aes ctx additional)
    | .setPredictionResistance resistance =>
      some ({ ctx with predictionResistance := resistance }, ⟨.ok (), [], false⟩)
    | .setEntropyLen len => some ({ ctx with entropyLen := len }, ⟨.ok (), [], false⟩)
    | .setReseedInterval interval =>
      some ({ ctx with reseedInterval := interval }, ⟨.ok (), [], false⟩)

end CtrDrbg

end TfPsaCrypto
