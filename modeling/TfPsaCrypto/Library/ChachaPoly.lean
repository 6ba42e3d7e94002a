import TfPsaCrypto.Library.BlockStream
import TfPsaCrypto.Library.Poly1305

/-!
# ChaCha20 and Poly1305

The block function of RFC 8439, section 2.3, and the AEAD construction of section 2.8 over any
block function.
-/

namespace ChachaPoly

open Bytes BlockStream

/-! ## The block function -/

abbrev State := Vector UInt32 16

def rotl (x : UInt32) (n : UInt32) : UInt32 := x <<< n ||| x >>> (32 - n)

def quarterRound (a b c d : UInt32) : UInt32 × UInt32 × UInt32 × UInt32 :=
  let a := a + b
  let d := rotl (d ^^^ a) 16
  let c := c + d
  let b := rotl (b ^^^ c) 12
  let a := a + b
  let d := rotl (d ^^^ a) 8
  let c := c + d
  let b := rotl (b ^^^ c) 7
  (a, b, c, d)

def quarterRoundAt {n : Nat} (s : Vector UInt32 n) (x y z w : Fin n) : Vector UInt32 n :=
  let q := quarterRound s[x] s[y] s[z] s[w]
  (((s.set x q.1).set y q.2.1).set z q.2.2.1).set w q.2.2.2

def innerBlock (s : State) : State :=
  let s := quarterRoundAt s 0 4 8 12
  let s := quarterRoundAt s 1 5 9 13
  let s := quarterRoundAt s 2 6 10 14
  let s := quarterRoundAt s 3 7 11 15
  let s := quarterRoundAt s 0 5 10 15
  let s := quarterRoundAt s 1 6 11 12
  let s := quarterRoundAt s 2 7 8 13
  quarterRoundAt s 3 4 9 14

def wordLE (bs : ByteString) (i : Nat) : UInt32 := UInt32.ofNat (ofLE (slice bs (4 * i) 4))

def initialState (key nonce : ByteString) (counter : UInt32) : State :=
  #v[0x61707865, 0x3320646e, 0x79622d32, 0x6b206574,
    wordLE key 0, wordLE key 1, wordLE key 2, wordLE key 3,
    wordLE key 4, wordLE key 5, wordLE key 6, wordLE key 7,
    counter, wordLE nonce 0, wordLE nonce 1, wordLE nonce 2]

def serialize (s : State) : ByteString := s.toList.flatMap fun word => toLE 4 word.toNat

def block (key nonce : ByteString) (counter : Nat) : ByteString :=
  let s := initialState key nonce (UInt32.ofNat counter)
  serialize ((innerBlock^[10] s).zipWith (· + ·) s)

example :
    (block ((List.range 32).map UInt8.ofNat) [0, 0, 0, 9, 0, 0, 0, 0x4a, 0, 0, 0, 0] 1).take 8 =
      [0x10, 0xf1, 0xe7, 0xe4, 0xd1, 0x3b, 0x59, 0x15] := by
  decide +kernel

theorem length_serialize (s : State) : (serialize s).length = 64 := by
  unfold serialize
  rw [List.length_flatMap]
  simp

/-! ## The construction -/

def pad16 (len : Nat) : ByteString := List.replicate ((16 - len % 16) % 16) 0

def macData (aad ciphertext : ByteString) : ByteString :=
  aad ++ pad16 aad.length ++ (ciphertext ++ pad16 ciphertext.length) ++
    (toLE 8 aad.length ++ toLE 8 ciphertext.length)

section Construction

variable (block : Nat → ByteString)

def crypt (input : ByteString) : ByteString := Bytes.xor input (segment 64 block 64 input.length)

def tag (aad ciphertext : ByteString) : ByteString :=
  Poly1305.mac ((block 0).take 32) (macData aad ciphertext)

variable {block}

@[simp] theorem length_crypt (input : ByteString) : (crypt block input).length = input.length := by
  unfold crypt
  rw [length_xor, length_segment, Nat.min_self]

theorem crypt_crypt (input : ByteString) : crypt block (crypt block input) = input := by
  have hlen : (crypt block input).length = input.length := length_crypt input
  conv_lhs => rw [crypt, hlen, crypt]
  exact xor_xor (by rw [length_segment])

end Construction

end ChachaPoly
