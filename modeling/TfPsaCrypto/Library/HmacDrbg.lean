import TfPsaCrypto.Library.Drbg

/-!
# HMAC_DRBG

The mechanism of SP 800-90A, section 10.1.2, over an arbitrary keyed function with outputs of
`outlen` bytes.
-/

namespace Drbg

open Bytes

@[ext] structure HmacState where
  K : ByteString
  V : ByteString

section Mechanism

variable (hmac : ByteString → ByteString → ByteString) (outlen : Nat)

def hmacUpdate (data : ByteString) (s : HmacState) : HmacState :=
  let K := hmac s.K (s.V ++ [0x00] ++ data)
  let V := hmac K s.V
  if data = [] then ⟨K, V⟩
  else
    let K := hmac K (V ++ [0x01] ++ data)
    ⟨K, hmac K V⟩

def hmacInstantiate (seedMaterial : ByteString) : HmacState :=
  hmacUpdate hmac seedMaterial ⟨List.replicate outlen 0x00, List.replicate outlen 0x01⟩

/-- `count` successive values of `V`. -/
def hmacBlocks (K V : ByteString) (count : Nat) : List ByteString :=
  (List.range count).map fun i => (hmac K)^[i + 1] V

/-- The number of blocks for `n` bytes. -/
def blockCount (n : Nat) : Nat := (n + (outlen - 1)) / outlen

def hmacGenerate (n : Nat) (additional : ByteString) (s : HmacState) : ByteString × HmacState :=
  let s := if additional = [] then s else hmacUpdate hmac additional s
  ((hmacBlocks hmac s.K s.V (blockCount outlen n)).flatten.take n,
    hmacUpdate hmac additional ⟨s.K, (hmac s.K)^[blockCount outlen n] s.V⟩)

def hmacMechanism : Mechanism HmacState where
  update data s := some (hmacUpdate hmac data s)
  reseed entropy additional := hmacUpdate hmac (entropy ++ additional)
  generate := hmacGenerate hmac outlen

end Mechanism

variable {hmac : ByteString → ByteString → ByteString} {outlen : Nat} {K V : ByteString}

@[simp] theorem hmacBlocks_zero : hmacBlocks hmac K V 0 = [] := rfl

theorem hmacBlocks_succ (count : Nat) :
    hmacBlocks hmac K V (count + 1) = hmac K V :: hmacBlocks hmac K (hmac K V) count := by
  unfold hmacBlocks
  rw [List.range_succ_eq_map, List.map_cons, List.map_map]
  rfl

@[simp] theorem blockCount_zero (h : 0 < outlen) : blockCount outlen 0 = 0 := by
  exact Nat.div_eq_of_lt (by omega)

theorem blockCount_pos (h : 0 < outlen) {n : Nat} (hn : 0 < n) :
    blockCount outlen n = blockCount outlen (n - outlen) + 1 := by
  unfold blockCount
  by_cases hle : outlen ≤ n
  · have hsum : n + (outlen - 1) = (n - outlen + (outlen - 1)) + outlen := by omega
    rw [hsum, Nat.add_div_right _ h]
  · have hsmall : n - outlen + (outlen - 1) < outlen := by omega
    rw [Nat.div_eq_of_lt hsmall]
    exact Nat.div_eq_of_lt_le (by omega) (by omega)

theorem length_hmacBlocks (hlen : ∀ data, (hmac K data).length = outlen) (count : Nat) :
    (hmacBlocks hmac K V count).flatten.length = outlen * count := by
  induction count generalizing V with
  | zero => rfl
  | succ count ih =>
    rw [hmacBlocks_succ, List.flatten_cons, List.length_append, hlen, ih, Nat.mul_succ,
      Nat.add_comm]

theorem le_mul_blockCount (h : 0 < outlen) (n : Nat) : n ≤ outlen * blockCount outlen n := by
  unfold blockCount
  have hdiv := Nat.div_add_mod (n + (outlen - 1)) outlen
  have hlt := Nat.mod_lt (n + (outlen - 1)) h
  omega

end Drbg
