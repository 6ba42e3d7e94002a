import TfPsaCrypto.Library.Bytes

/-!
# HMAC

The keyed hash of RFC 2104 over an arbitrary hash function `H` with blocks of `B` bytes. A key
enters only through `normalizeKey`, its block-sized form.
-/

namespace Hmac

open Bytes (ByteString xor)

variable (H : ByteString → ByteString) (B : Nat)

def normalizeKey (key : ByteString) : ByteString :=
  let k := if B < key.length then H key else key
  k ++ List.replicate (B - k.length) 0

def hmac (key message : ByteString) : ByteString :=
  let k := normalizeKey H B key
  H (xor k (List.replicate B 0x5c) ++ H (xor k (List.replicate B 0x36) ++ message))

variable {H B} {key key' : ByteString}

theorem hmac_congr (h : normalizeKey H B key = normalizeKey H B key')
    (message : ByteString) : hmac H B key message = hmac H B key' message := by
  rw [hmac, hmac, h]

theorem hmac_pad {n : Nat} (h : key.length + n ≤ B) (message : ByteString) :
    hmac H B (key ++ List.replicate n 0) message = hmac H B key message := by
  apply hmac_congr
  have hshort : ¬ B < key.length := by omega
  have hpadded : ¬ B < key.length + n := by omega
  have hsum : n + (B - (key.length + n)) = B - key.length := by omega
  simp only [normalizeKey, if_neg hshort, if_neg hpadded, List.length_append,
    List.length_replicate, List.append_assoc, ← List.replicate_add, hsum]

theorem hmac_hash_key (h : B < key.length) (hH : (H key).length ≤ B)
    (message : ByteString) : hmac H B (H key) message = hmac H B key message := by
  apply hmac_congr
  simp only [normalizeKey, if_pos h, if_neg (not_lt.mpr hH)]

/-! ## Pads -/

def shortKey (H : ByteString → ByteString) (B : Nat) (key : ByteString) : ByteString :=
  if B < key.length then H key else key

def pad (B : Nat) (c : UInt8) (key : ByteString) : ByteString :=
  key.map (· ^^^ c) ++ List.replicate (B - key.length) c

theorem length_shortKey (hH : ∀ m, (H m).length ≤ B) (key : ByteString) :
    (shortKey H B key).length ≤ B := by
  unfold shortKey
  split
  · exact hH key
  · omega

theorem length_pad {c : UInt8} (h : key.length ≤ B) : (pad B c key).length = B := by
  unfold pad
  rw [List.length_append, List.length_map, List.length_replicate]
  omega

theorem xor_replicate (c : UInt8) (bs : ByteString) :
    Bytes.xor bs (List.replicate bs.length c) = bs.map (· ^^^ c) := by
  induction bs with
  | nil => rfl
  | cons b bs ih =>
    rw [List.length_cons, List.replicate_succ, List.map_cons, ← ih]
    rfl

theorem xor_zeros (n : Nat) (c : UInt8) :
    Bytes.xor (List.replicate n 0) (List.replicate n c) = List.replicate n c := by
  unfold Bytes.xor
  rw [List.zipWith_replicate, Nat.min_self, UInt8.zero_xor]

theorem xor_normalizeKey (hH : ∀ m, (H m).length ≤ B) (key : ByteString) (c : UInt8) :
    Bytes.xor (normalizeKey H B key) (List.replicate B c) = pad B c (shortKey H B key) := by
  have hlength := length_shortKey hH key
  have hsplit : List.replicate B c = List.replicate (shortKey H B key).length c ++
      List.replicate (B - (shortKey H B key).length) c := by
    rw [List.replicate_append_replicate, Nat.add_sub_cancel' hlength]
  show Bytes.xor (shortKey H B key ++ List.replicate (B - (shortKey H B key).length) 0) _ = _
  rw [hsplit, Bytes.xor_append (List.length_replicate).symm, xor_replicate, xor_zeros]
  rfl

theorem hmac_eq_pads (hH : ∀ m, (H m).length ≤ B) (key message : ByteString) :
    hmac H B key message =
      H (pad B 0x5c (shortKey H B key) ++ H (pad B 0x36 (shortKey H B key) ++ message)) := by
  show H (Bytes.xor (normalizeKey H B key) _ ++
    H (Bytes.xor (normalizeKey H B key) _ ++ message)) = _
  rw [xor_normalizeKey hH, xor_normalizeKey hH]

end Hmac
