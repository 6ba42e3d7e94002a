import TfPsaCrypto.Library.BlockStream
import TfPsaCrypto.Library.Blocks

/-!
# Counter with CBC-MAC

CCM of NIST SP 800-38C and RFC 3610, over an arbitrary block function `e`. The length field has
`q = 15 - n` bytes for a nonce of `n` bytes.
-/

namespace CounterCbcMac

open Bytes Blocks

def lengthSize (nonce : ByteString) : Nat := 15 - nonce.length

/-- The flags of the first block, for `a` bytes of additional data and a tag of `t`
bytes. -/
def flags (nonce : ByteString) (a t : Nat) : Nat :=
  64 * (if a = 0 then 0 else 1) + 8 * ((t - 2) / 2) + (lengthSize nonce - 1)

/-- Block `B_0`: flags, nonce and the length `p` of the payload. -/
def firstBlock (nonce : ByteString) (a p t : Nat) : Block 16 :=
  Block.ofList ([UInt8.ofNat (flags nonce a t)] ++ nonce ++ toBE (lengthSize nonce) p)

/-- The additional data with its length, of less than `2 ^ 16 - 2 ^ 8` bytes. -/
def encodedAd (ad : ByteString) : ByteString := if ad = [] then [] else toBE 2 ad.length ++ ad

def mac (e : Block 16 → Block 16) (nonce ad payload : ByteString) (t : Nat) : Block 16 :=
  chain e Block.zero
    (firstBlock nonce ad.length payload.length t ::
      (blocksOf 16 (encodedAd ad) ++ blocksOf 16 payload))

/-- Counter block `i`. -/
def counterBlock (nonce : ByteString) (i : Nat) : Block 16 :=
  Block.ofList ([UInt8.ofNat (lengthSize nonce - 1)] ++ nonce ++ toBE (lengthSize nonce) i)

/-- The tag of `t` bytes. -/
def tag (e : Block 16 → Block 16) (nonce ad payload : ByteString) (t : Nat) : ByteString :=
  ((mac e nonce ad payload t).xor (e (counterBlock nonce 0))).toList.take t

/-- Block `i` of the key stream; counter block 0 is the tag's. -/
def keyStream (e : Block 16 → Block 16) (nonce : ByteString) (i : Nat) : ByteString :=
  (e (counterBlock nonce (i + 1))).toList

/-- The encryption of the part of the payload that starts at position `pos`. -/
def encrypt (e : Block 16 → Block 16) (nonce : ByteString) (pos : Nat) (payload : ByteString) :
    ByteString :=
  xor payload (BlockStream.segment 16 (keyStream e nonce) pos payload.length)

variable {e : Block 16 → Block 16} {nonce : ByteString}

@[simp] theorem length_encrypt (pos : Nat) (payload : ByteString) :
    (encrypt e nonce pos payload).length = payload.length := by
  simp [encrypt]

theorem encrypt_append (pos : Nat) (x y : ByteString) :
    encrypt e nonce pos (x ++ y) = encrypt e nonce pos x ++ encrypt e nonce (pos + x.length) y := by
  rw [encrypt, List.length_append, BlockStream.segment_add, Bytes.xor,
    List.zipWith_append (by simp)]
  rfl

theorem encrypt_piece {pos : Nat} {payload : ByteString}
    (h : pos % 16 + payload.length ≤ 16) :
    encrypt e nonce pos payload =
      xor payload ((e (counterBlock nonce (1 + pos / 16))).toList.drop (pos % 16)) := by
  have hpos : pos = pos / 16 * 16 + pos % 16 := by omega
  have hsegment : BlockStream.segment 16 (keyStream e nonce) pos payload.length =
      ((keyStream e nonce (pos / 16)).drop (pos % 16)).take payload.length := by
    conv_lhs => rw [hpos]
    exact BlockStream.segment_of_block (by simp [keyStream]) h
  rw [encrypt, hsegment, keyStream, Nat.add_comm 1]
  unfold Bytes.xor
  rw [List.zipWith_eq_zipWith_take_min, List.take_take]
  conv_rhs => rw [List.zipWith_eq_zipWith_take_min]
  simp

theorem mac_eq (ad payload : ByteString) (t : Nat) :
    mac e nonce ad payload t =
      chain e (chain e (e (firstBlock nonce ad.length payload.length t))
        (blocksOf 16 (encodedAd ad))) (blocksOf 16 payload) := by
  have hzero : ∀ b : Block 16, Block.zero.xor b = b := by
    intro b
    funext i
    exact UInt8.zero_xor
  rw [mac, chain, List.foldl_cons, List.foldl_append, hzero]
  rfl

end CounterCbcMac
