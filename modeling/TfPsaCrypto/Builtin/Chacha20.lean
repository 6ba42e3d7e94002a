import TfPsaCrypto.Library.Bytes
import TfPsaCrypto.Library.CounterStream

/-!
# ChaCha20

`chacha20.c`: the block function, and the stream with a buffer of key stream bytes. No
call fails. Calls of the block function are logged with the state they are given,
whose word 12 is the counter.
-/

namespace TfPsaCrypto

open Bytes

/-! ## The block function -/

abbrev Chacha20State := Vector UInt32 16

def rotl32 (value amount : UInt32) : UInt32 := value <<< amount ||| value >>> (32 - amount)

def chacha20QuarterRound (state : Chacha20State) (a b c d : Fin 16) : Chacha20State :=
  let state := state.set a (state[a] + state[b])
  let state := state.set d (rotl32 (state[d] ^^^ state[a]) 16)
  let state := state.set c (state[c] + state[d])
  let state := state.set b (rotl32 (state[b] ^^^ state[c]) 12)
  let state := state.set a (state[a] + state[b])
  let state := state.set d (rotl32 (state[d] ^^^ state[a]) 8)
  let state := state.set c (state[c] + state[d])
  state.set b (rotl32 (state[b] ^^^ state[c]) 7)

theorem set_twice (s : Chacha20State) {a b c d : Fin 16} (hbc : b ≠ c) (hbd : b ≠ d) (hcd : c ≠ d)
    (x₁ x₂ x₃ x₄ y₁ y₂ y₃ y₄ : UInt32) :
    (((((((s.set a x₁).set d x₂).set c x₃).set b x₄).set a y₁).set d y₂).set c y₃).set b y₄ =
      (((s.set a y₁).set b y₄).set c y₃).set d y₂ := by
  apply Vector.ext
  intro i hi
  simp only [Vector.getElem_set]
  split_ifs <;> first | rfl | (exfalso; omega)

def chacha20HalfRound (state : Chacha20State) (a b c d : Fin 16) (m n : UInt32) : Chacha20State :=
  let state := state.set a (state[a] + state[b])
  let state := state.set d (rotl32 (state[d] ^^^ state[a]) m)
  let state := state.set c (state[c] + state[d])
  state.set b (rotl32 (state[b] ^^^ state[c]) n)

theorem chacha20HalfRound_eq (s : Chacha20State) {a b c d : Fin 16} (hab : a ≠ b) (hac : a ≠ c)
    (had : a ≠ d) (hbc : b ≠ c) (hbd : b ≠ d) (hcd : c ≠ d) (m n : UInt32) {x y z w : UInt32}
    (ha : s[a] = x) (hb : s[b] = y) (hc : s[c] = z) (hd : s[d] = w) :
    chacha20HalfRound s a b c d m n =
      (((s.set a (x + y)).set d (rotl32 (w ^^^ (x + y)) m)).set c
        (z + rotl32 (w ^^^ (x + y)) m)).set b
        (rotl32 (y ^^^ (z + rotl32 (w ^^^ (x + y)) m)) n) := by
  have hne : ∀ {i j : Fin 16}, i ≠ j → (i : Nat) ≠ j := fun h heq => h (Fin.ext heq)
  simp only [Fin.getElem_fin] at ha hb hc hd
  unfold chacha20HalfRound
  simp only [Fin.getElem_fin, Vector.getElem_set_self, Vector.getElem_set_ne _ _ (hne hab),
    Vector.getElem_set_ne _ _ (hne hac), Vector.getElem_set_ne _ _ (hne had),
    Vector.getElem_set_ne _ _ (hne hcd.symm), Vector.getElem_set_ne _ _ (hne hbd.symm),
    Vector.getElem_set_ne _ _ (hne hbc.symm), ha, hb, hc, hd]

def chacha20InnerBlock (state : Chacha20State) : Chacha20State :=
  let state := chacha20QuarterRound state 0 4 8 12
  let state := chacha20QuarterRound state 1 5 9 13
  let state := chacha20QuarterRound state 2 6 10 14
  let state := chacha20QuarterRound state 3 7 11 15
  let state := chacha20QuarterRound state 0 5 10 15
  let state := chacha20QuarterRound state 1 6 11 12
  let state := chacha20QuarterRound state 2 7 8 13
  chacha20QuarterRound state 3 4 9 14

def chacha20Block (initialState : Chacha20State) : ByteString :=
  let workingState := chacha20InnerBlock^[10] initialState
  (workingState.zipWith (· + ·) initialState).toList.flatMap fun word => toLE 4 word.toNat

/-! ## The context -/

structure MbedtlsChacha20Context where
  state : Chacha20State
  keystream8 : ByteString
  keystreamBytesUsed : Nat

def MbedtlsChacha20Context.init : MbedtlsChacha20Context :=
  { state := Vector.replicate 16 0, keystream8 := List.replicate 64 0, keystreamBytesUsed := 64 }

def wordLE (bs : ByteString) (off : Nat) : UInt32 := UInt32.ofNat (ofLE (slice bs off 4))

def expand32ByteK : ByteString :=
  [0x65, 0x78, 0x70, 0x61, 0x6e, 0x64, 0x20, 0x33, 0x32, 0x2d, 0x62, 0x79, 0x74, 0x65, 0x20, 0x6b]

def mbedtlsChacha20Setkey (ctx : MbedtlsChacha20Context) (key : ByteString) :
    MbedtlsChacha20Context :=
  { ctx with
      state := Vector.ofFn fun i : Fin 16 =>
        if (i : Nat) < 4 then wordLE expand32ByteK (4 * i)
        else if (i : Nat) < 12 then wordLE key (4 * (i - 4))
        else ctx.state[i] }

def mbedtlsChacha20Starts (ctx : MbedtlsChacha20Context) (nonce : ByteString) (counter : UInt32) :
    MbedtlsChacha20Context :=
  { state := Vector.ofFn fun i : Fin 16 =>
      if (i : Nat) = 12 then counter
      else if (i : Nat) > 12 then wordLE nonce (4 * (i - 13))
      else ctx.state[i]
    keystream8 := List.replicate 64 0
    keystreamBytesUsed := 64 }

/-! ## The stream -/

structure Chacha20Result where
  ctx : MbedtlsChacha20Context
  output : ByteString
  log : List (CounterStream.Feed Chacha20State)

def chacha20NextBlock (ctx : MbedtlsChacha20Context) : MbedtlsChacha20Context :=
  { ctx with
      keystream8 := chacha20Block ctx.state
      state := ctx.state.set 12 (ctx.state[12] + 1) }

/-- The state of the block function for block `i` of the key stream, from counter 0 on. -/
def chacha20Input (state : Chacha20State) (i : Nat) : Chacha20State := state.set 12 (UInt32.ofNat i)

theorem chacha20Input_succ (state : Chacha20State) (i : Nat) :
    (chacha20Input state i).set 12 ((chacha20Input state i)[12] + 1) =
      chacha20Input state (i + 1) := by
  unfold chacha20Input
  rw [Vector.getElem_set_self, Vector.set_set, UInt32.ofNat_add]
  rfl

/-- The full blocks of `mbedtls_chacha20_update`, and the last one. -/
def chacha20UpdateLoop : Nat → MbedtlsChacha20Context → ByteString → Chacha20Result
  | 0, ctx, _ => { ctx := ctx, output := [], log := [] }
  | fuel + 1, ctx, input =>
    let next := chacha20NextBlock ctx
    let log := [{ counter := ctx.state, offset := 0 }]
    if input.length ≥ 64 then
      let rest := chacha20UpdateLoop fuel next (input.drop 64)
      { rest with
          output := Bytes.xor (input.take 64) next.keystream8 ++ rest.output
          log := log ++ rest.log }
    else if input.length > 0 then
      { ctx := { next with keystreamBytesUsed := input.length }
        output := Bytes.xor input next.keystream8
        log := log }
    else
      { ctx := ctx, output := [], log := [] }

def mbedtlsChacha20Update (ctx : MbedtlsChacha20Context) (input : ByteString) : Chacha20Result :=
  let leftover := min (64 - ctx.keystreamBytesUsed) input.length
  let output := Bytes.xor (input.take leftover) (ctx.keystream8.drop ctx.keystreamBytesUsed)
  let rest := chacha20UpdateLoop input.length
    { ctx with keystreamBytesUsed := ctx.keystreamBytesUsed + leftover } (input.drop leftover)
  { rest with output := output ++ rest.output }

end TfPsaCrypto
