import Mathlib.Data.Nat.Size
import TfPsaCrypto.Library.HmacDrbg

/-!
# Deterministic nonces

The generation of `k` of RFC 6979, section 3.2, for the order `q` and over an arbitrary keyed
function with outputs of `hlen` bytes.
-/

namespace Rfc6979

open Bytes Drbg

/-! ## Integers and strings -/

def octets (q : Nat) : Nat := (q.size + 7) / 8

/-- The leftmost bits of a string, as many as `q` has. -/
def bits2int (q : Nat) (bs : ByteString) : Nat := ofBE bs >>> (8 * bs.length - q.size)

theorem size_le_octets (q : Nat) : q.size ≤ 8 * octets q := by
  unfold octets
  omega

theorem bits2int_take {q : Nat} {bs : ByteString} (h : octets q ≤ bs.length) :
    bits2int q (bs.take (octets q)) = bits2int q bs := by
  have hsize := size_le_octets q
  have hsplit := ofBE_append (bs.take (octets q)) (bs.drop (octets q))
  have hlt := ofBE_lt (bs.drop (octets q))
  rw [List.take_append_drop, List.length_drop] at hsplit
  rw [List.length_drop] at hlt
  have hdiv : ofBE (bs.take (octets q)) = ofBE bs >>> (8 * (bs.length - octets q)) := by
    rw [Nat.shiftRight_eq_div_pow, Nat.pow_mul, hsplit, Nat.add_comm]
    rw [Nat.add_mul_div_right _ _ (Nat.pow_pos (by decide)), Nat.div_eq_of_lt hlt, Nat.zero_add]
  unfold bits2int
  rw [hdiv, ← Nat.shiftRight_add, List.length_take, Nat.min_eq_left h]
  congr 1
  omega

/-! ## Candidates -/

section Candidates

variable (hmac : ByteString → ByteString → ByteString) (hlen q : Nat)

/-- Steps b to g; the seed is `int2octets(x) || bits2octets(h1)`. -/
def start (seed : ByteString) : HmacState :=
  let V := List.replicate hlen 0x01
  let K := List.replicate hlen 0x00
  let K := hmac K (V ++ [0x00] ++ seed)
  let V := hmac K V
  let K := hmac K (V ++ [0x01] ++ seed)
  ⟨K, hmac K V⟩

/-- How often `V` is appended to `T` until it has as many bits as `q`. -/
def rounds : Nat := (q.size + (8 * hlen - 1)) / (8 * hlen)

def generateT (s : HmacState) : ByteString := (hmacBlocks hmac s.K s.V (rounds hlen q)).flatten

/-- The state after `generateT`, with the update of step h.3. -/
def next (s : HmacState) : HmacState :=
  let V := (hmac s.K)^[rounds hlen q] s.V
  let K := hmac s.K (V ++ [0x00])
  ⟨K, hmac K V⟩

/-- The state before the candidate `n`. -/
def state (seed : ByteString) : Nat → HmacState
  | 0 => start hmac hlen seed
  | n + 1 => next hmac hlen q (state seed n)

def candidate (seed : ByteString) (n : Nat) : Nat :=
  bits2int q (generateT hmac hlen q (state hmac hlen q seed n))

end Candidates

/-- Of the first `n` candidates, in order, those in `[1, q - 1]`. -/
def scalars (c : Nat → Nat) (q : Nat) : Nat → List Nat
  | 0 => []
  | n + 1 => scalars c q n ++ if 1 ≤ c n ∧ c n < q then [c n] else []

/-- `k` is the first scalar that is not rejected. -/
def Chooses (c : Nat → Nat) (q : Nat) (rejected : Nat → Prop) (k : Nat) : Prop :=
  ∃ n ks, scalars c q n = ks ++ [k] ∧ (∀ k' ∈ ks, rejected k') ∧ ¬ rejected k

theorem rounds_eq {hlen : Nat} (h : 0 < hlen) (q : Nat) :
    blockCount hlen (octets q) = rounds hlen q := by
  have hsum : (q.size + 7) / 8 + (hlen - 1) = (q.size + (8 * hlen - 1)) / 8 := by omega
  unfold blockCount octets rounds
  rw [hsum, Nat.div_div_eq_div_mul]

/-- Between the candidates `i` and `j` lie the scalars `ks`. -/
def Yields (c : Nat → Nat) (q i : Nat) (ks : List Nat) (j : Nat) : Prop :=
  scalars c q j = scalars c q i ++ ks

section Yields

variable {c : Nat → Nat} {q i j l : Nat} {ks ls : List Nat}

theorem Yields.nil : Yields c q i [] i := (List.append_nil _).symm

theorem Yields.append (h : Yields c q i ks j) (h' : Yields c q j ls l) :
    Yields c q i (ks ++ ls) l := by
  unfold Yields at h h' ⊢
  rw [h', h, List.append_assoc]

theorem Yields.suitable (h : 1 ≤ c i ∧ c i < q) : Yields c q i [c i] (i + 1) := by
  unfold Yields
  rw [scalars, if_pos h]

theorem Yields.unsuitable (h : ¬ (1 ≤ c i ∧ c i < q)) : Yields c q i [] (i + 1) := by
  unfold Yields
  rw [scalars, if_neg h]

theorem yields_of_le (h : i ≤ j) : ∃ ks, Yields c q i ks j := by
  induction j, h using Nat.le_induction with
  | base => exact ⟨[], .nil⟩
  | succ j _ ih =>
    obtain ⟨ks, hks⟩ := ih
    by_cases hj : 1 ≤ c j ∧ c j < q
    · exact ⟨ks ++ [c j], hks.append (.suitable hj)⟩
    · exact ⟨ks ++ [], hks.append (.unsuitable hj)⟩

end Yields

theorem Chooses.unique {c : Nat → Nat} {q : Nat} {rejected : Nat → Prop} {k k' : Nat}
    (h : Chooses c q rejected k) (h' : Chooses c q rejected k') : k = k' := by
  obtain ⟨n, ks, hks, hall, hk⟩ := h
  obtain ⟨m, ls, hls, hall', hk'⟩ := h'
  -- of two prefixes of one sequence that end in the chosen scalar none is longer
  have hsame : ∀ {n m ks ls k k'}, n ≤ m → scalars c q n = ks ++ [k] →
      scalars c q m = ls ++ [k'] → (∀ l ∈ ls, rejected l) → ¬ rejected k → k = k' := by
    intro n m ks ls k k' hle hks hls hall hk
    obtain ⟨rest, hrest⟩ := @yields_of_le c q _ _ hle
    unfold Yields at hrest
    rw [hks, hls] at hrest
    rcases List.eq_nil_or_concat rest with rfl | ⟨rest', z, rfl⟩
    · rw [List.append_nil] at hrest
      exact (List.append_singleton_inj.mp hrest).2.symm
    rw [List.concat_eq_append, ← List.append_assoc] at hrest
    have hmem : k ∈ ls := by
      rw [(List.append_singleton_inj.mp hrest).1]
      simp
    exact absurd (hall k hmem) hk
  rcases Nat.le_total n m with hle | hle
  · exact hsame hle hks hls hall' hk
  · exact (hsame hle hls hks hall hk').symm

end Rfc6979
