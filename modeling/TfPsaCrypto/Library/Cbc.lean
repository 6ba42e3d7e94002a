import TfPsaCrypto.Library.Bytes

/-!
# Cipher block chaining

CBC over a function on blocks of `n` bytes. A call works on a given number of blocks and
returns the bytes and the chaining value for the next call.
-/

namespace Cbc

open Bytes

variable (n : Nat)

def encrypt (E : ByteString → ByteString) : Nat → ByteString → ByteString → ByteString × ByteString
  | 0, iv, _ => ([], iv)
  | k + 1, iv, x =>
    let c := E (xor (x.take n) iv)
    let r := encrypt E k c (x.drop n)
    (c ++ r.1, r.2)

def decrypt (D : ByteString → ByteString) : Nat → ByteString → ByteString → ByteString × ByteString
  | 0, iv, _ => ([], iv)
  | k + 1, iv, c =>
    let r := decrypt D k (c.take n) (c.drop n)
    (xor (D (c.take n)) iv ++ r.1, r.2)

variable {n} {E D : ByteString → ByteString} {iv x y : ByteString} {j k : Nat}

theorem take_append_block (h : x.length = (j + 1) * n) : (x ++ y).take n = x.take n := by
  rw [List.take_append_of_le_length]
  rw [h, Nat.succ_mul]
  omega

theorem drop_append_block (h : x.length = (j + 1) * n) : (x ++ y).drop n = x.drop n ++ y := by
  rw [List.drop_append_of_le_length]
  rw [h, Nat.succ_mul]
  omega

theorem length_drop_block (h : x.length = (j + 1) * n) : (x.drop n).length = j * n := by
  rw [List.length_drop, h, Nat.succ_mul]
  omega

theorem length_take_block (h : x.length = (j + 1) * n) : (x.take n).length = n := by
  rw [List.length_take, h, Nat.succ_mul]
  omega

variable (iv) in
theorem encrypt_append (h : x.length = j * n) :
    encrypt n E (j + k) iv (x ++ y)
      = ((encrypt n E j iv x).1 ++ (encrypt n E k (encrypt n E j iv x).2 y).1,
          (encrypt n E k (encrypt n E j iv x).2 y).2) := by
  induction j generalizing iv x with
  | zero =>
    obtain rfl : x = [] := List.length_eq_zero_iff.mp (by simpa using h)
    simp [encrypt]
  | succ j ih =>
    rw [Nat.succ_add, encrypt, take_append_block h, drop_append_block h]
    simp only [ih _ (length_drop_block h), encrypt, List.append_assoc]

section Lengths

variable (hE : ∀ b : ByteString, b.length = n → (E b).length = n)
include hE

theorem length_image (hiv : iv.length = n) (h : x.length = (j + 1) * n) :
    (E (xor (x.take n) iv)).length = n := by
  apply hE
  rw [length_xor, length_take_block h, hiv, Nat.min_self]

theorem length_encrypt (hiv : iv.length = n) (h : x.length = k * n) :
    (encrypt n E k iv x).1.length = k * n ∧ (encrypt n E k iv x).2.length = n := by
  induction k generalizing iv x with
  | zero => exact ⟨by simp [encrypt], hiv⟩
  | succ k ih =>
    have himage := length_image hE hiv h
    obtain ⟨hout, hnext⟩ := ih himage (length_drop_block h)
    refine ⟨?_, hnext⟩
    rw [encrypt, List.length_append, himage, hout, Nat.succ_mul, Nat.add_comm]

theorem decrypt_encrypt (hDE : ∀ b : ByteString, b.length = n → D (E b) = b)
    (hiv : iv.length = n) (h : x.length = k * n) :
    decrypt n D k iv (encrypt n E k iv x).1 = (x, (encrypt n E k iv x).2) := by
  induction k generalizing iv x with
  | zero =>
    obtain rfl : x = [] := List.length_eq_zero_iff.mp (by simpa using h)
    rfl
  | succ k ih =>
    have himage := length_image hE hiv h
    have hblock := length_take_block h
    have hmasked : (xor (x.take n) iv).length = n := by
      rw [length_xor, hblock, hiv, Nat.min_self]
    have hback : xor (xor (x.take n) iv) iv = x.take n := xor_xor (by omega)
    rw [encrypt, decrypt]
    simp only [List.take_left' himage, List.drop_left' himage,
      ih himage (length_drop_block h), hDE _ hmasked, hback, List.take_append_drop]

end Lengths

variable (iv) in
theorem length_decrypt_le (hD : ∀ b : ByteString, b.length = n → (D b).length = n)
    (h : x.length = k * n) : (decrypt n D k iv x).1.length ≤ k * n := by
  induction k generalizing iv x with
  | zero => simp [decrypt]
  | succ k ih =>
    have hblock := hD _ (length_take_block h)
    have hrest := ih (x.take n) (length_drop_block h)
    rw [decrypt, List.length_append, length_xor, hblock, Nat.succ_mul]
    omega

end Cbc
