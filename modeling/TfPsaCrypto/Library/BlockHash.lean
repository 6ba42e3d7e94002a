import TfPsaCrypto.Library.Bytes

/-!
# Hashes that chain a compression function over blocks

A hash of this kind compresses one block after the other into a chaining value. `hash_append` is
the rule for data in pieces; `padding` makes whole blocks of every message.
-/

namespace BlockHash

open Bytes

variable {σ : Type*} {size : Nat} {f : σ → ByteString → σ}

/-! ## Chaining -/

/-- The first `n` blocks of the data, compressed into the chaining value. -/
def chain (size : Nat) (f : σ → ByteString → σ) : Nat → σ → ByteString → σ
  | 0, s, _ => s
  | n + 1, s, data => chain size f n (f s (data.take size)) (data.drop size)

def hash (size : Nat) (f : σ → ByteString → σ) (s : σ) (data : ByteString) : σ :=
  chain size f (data.length / size) s data

theorem chain_add (m n : Nat) (s : σ) (data : ByteString) :
    chain size f (m + n) s data =
      chain size f n (chain size f m s data) (data.drop (m * size)) := by
  induction m generalizing s data with
  | zero => rw [Nat.zero_add, Nat.zero_mul, List.drop_zero, chain]
  | succ m ih =>
    rw [Nat.add_right_comm, chain, ih, chain, List.drop_drop, Nat.succ_mul, Nat.add_comm]

theorem chain_append {n : Nat} {x : ByteString} (h : n * size ≤ x.length) (s : σ)
    (y : ByteString) : chain size f n s (x ++ y) = chain size f n s x := by
  induction n generalizing s x with
  | zero => rfl
  | succ n ih =>
    rw [Nat.succ_mul] at h
    rw [chain, chain, List.take_append_of_le_length (by omega),
      List.drop_append_of_le_length (by omega), ih (by rw [List.length_drop]; omega)]

theorem hash_append {m : Nat} {x : ByteString} (hsize : 0 < size) (h : x.length = m * size)
    (s : σ) (y : ByteString) :
    hash size f s (x ++ y) = hash size f (hash size f s x) y := by
  have hx : x.length / size = m := by rw [h, Nat.mul_div_cancel m hsize]
  have hxy : (x ++ y).length / size = m + y.length / size := by
    rw [List.length_append, h, Nat.add_comm, Nat.add_mul_div_right _ _ hsize, Nat.add_comm]
  unfold hash
  rw [hxy, hx, chain_add, chain_append (Nat.le_of_eq h.symm), List.drop_left' h]

theorem hash_of_lt {data : ByteString} (h : data.length < size) (s : σ) :
    hash size f s data = s := by
  unfold hash
  rw [Nat.div_eq_of_lt h]
  rfl

theorem hash_block {data : ByteString} (hsize : 0 < size) (h : data.length = size) (s : σ) :
    hash size f s data = f s data := by
  unfold hash
  rw [h, Nat.div_self hsize, chain, chain, ← h, List.take_length]

/-! ## Padding -/

/-- The zero bytes between the byte `0x80` and a length field of `field` bytes. -/
def zeroCount (size field n : Nat) : Nat := (size - (n + 1 + field) % size) % size

def padding (size field n : Nat) : ByteString :=
  0x80 :: (List.replicate (zeroCount size field n) 0 ++ toBE field (8 * n))

end BlockHash
