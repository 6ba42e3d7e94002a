import Mathlib.Algebra.BigOperators.Intervals
import Mathlib.Data.Int.ModEq
import TfPsaCrypto.Library.Bytes

/-!
# Poly1305

The one-time authenticator of RFC 8439, section 2.5.
-/

namespace Poly1305

open Bytes

def prime : Nat := 2 ^ 130 - 5

def clamp (r : Nat) : Nat := r &&& 0x0ffffffc0ffffffc0ffffffc0fffffff

/-- The accumulator after the blocks of `data`; every block ends with a byte 1. -/
def accumulate (r acc : Nat) (data : ByteString) : Nat :=
  if data = [] then acc
  else accumulate r ((acc + ofLE (data.take 16 ++ [1])) * r % prime) (data.drop 16)
termination_by data.length
decreasing_by
  have := List.length_pos_iff.mpr ‹_›
  rw [List.length_drop]
  omega

def mac (key message : ByteString) : ByteString :=
  toLE 16 (accumulate (clamp (ofLE (slice key 0 16))) 0 message + ofLE (slice key 16 16))

variable {r acc : Nat}

@[simp] theorem accumulate_nil : accumulate r acc [] = acc := by
  unfold accumulate
  rw [if_pos rfl]

theorem accumulate_ne_nil {data : ByteString} (h : data ≠ []) :
    accumulate r acc data =
      accumulate r ((acc + ofLE (data.take 16 ++ [1])) * r % prime) (data.drop 16) := by
  conv_lhs => unfold accumulate
  rw [if_neg h]

theorem accumulate_block {block rest : ByteString} (h : block.length = 16) :
    accumulate r acc (block ++ rest) =
      accumulate r ((acc + (ofLE block + 2 ^ 128)) * r % prime) rest := by
  have hne : block ++ rest ≠ [] := by
    intro hnil
    rw [(List.append_eq_nil_iff.mp hnil).1] at h
    cases h
  have hlast : ofLE (block ++ [1]) = ofLE block + 2 ^ 128 := by
    rw [ofLE_append, h]
    rfl
  rw [accumulate_ne_nil hne, List.take_left' h, List.drop_left' h, hlast]

theorem accumulate_append {x : ByteString} (h : 16 ∣ x.length) (y : ByteString) :
    accumulate r acc (x ++ y) = accumulate r (accumulate r acc x) y := by
  induction hlen : x.length using Nat.strong_induction_on generalizing acc x with
  | _ len ih =>
    subst hlen
    by_cases hnil : x = []
    · subst hnil
      rw [List.nil_append, accumulate_nil]
    have hpos := List.length_pos_iff.mpr hnil
    have hfull : (x.take 16).length = 16 := List.length_take_of_le (by omega)
    have hrest : (x.drop 16).length = x.length - 16 := List.length_drop
    rw [← List.take_append_drop 16 x, List.append_assoc, accumulate_block hfull,
      accumulate_block hfull]
    exact ih _ (by omega) (by omega) rfl

theorem accumulate_last {data : ByteString} (hne : data ≠ []) (hlen : data.length ≤ 16) :
    accumulate r acc data = (acc + ofLE (data ++ [1])) * r % prime := by
  rw [accumulate_ne_nil hne, List.take_of_length_le hlen, List.drop_eq_nil_of_le hlen,
    accumulate_nil]

theorem accumulate_congr {acc' : Nat} (h : acc % prime = acc' % prime) (data : ByteString) :
    accumulate r acc data % prime = accumulate r acc' data % prime := by
  by_cases hnil : data = []
  · subst hnil
    rw [accumulate_nil, accumulate_nil, h]
  · have hstep : (acc + ofLE (data.take 16 ++ [1])) * r % prime =
        (acc' + ofLE (data.take 16 ++ [1])) * r % prime :=
      Nat.ModEq.mul_right r (Nat.ModEq.add_right _ h)
    rw [accumulate_ne_nil hnil, accumulate_ne_nil hnil, hstep]

theorem accumulate_lt {data : ByteString} (h : data ≠ []) : accumulate r acc data < prime := by
  induction hlen : data.length using Nat.strong_induction_on generalizing acc data with
  | _ len ih =>
    subst hlen
    have hpos := List.length_pos_iff.mpr h
    rw [accumulate_ne_nil h]
    by_cases hrest : data.drop 16 = []
    · rw [hrest, accumulate_nil]
      exact Nat.mod_lt _ (by decide)
    · exact ih _ (by rw [List.length_drop]; omega) hrest rfl

/-! ## The polynomial -/

def blockCount (data : ByteString) : Nat := (data.length + 15) / 16

def blockNumber (data : ByteString) (i : Nat) : Nat := ofLE (slice data (16 * i) 16 ++ [1])

/-- The sum of the blocks times powers of `r`; the last block is multiplied once. -/
def polynomial (r : Nat) (data : ByteString) : Nat :=
  ∑ i ∈ Finset.range (blockCount data), blockNumber data i * r ^ (blockCount data - i)

theorem blockNumber_drop (data : ByteString) (i : Nat) :
    blockNumber (data.drop 16) i = blockNumber data (i + 1) := by
  unfold blockNumber slice
  rw [List.drop_drop, Nat.mul_succ, Nat.add_comm]

theorem polynomial_step {data : ByteString} (h : data ≠ []) :
    polynomial r data = blockNumber data 0 * r ^ blockCount data + polynomial r (data.drop 16) := by
  have hpos := List.length_pos_iff.mpr h
  have hcount : blockCount data = blockCount (data.drop 16) + 1 := by
    unfold blockCount
    rw [List.length_drop]
    omega
  unfold polynomial
  rw [hcount, Finset.sum_range_succ', Nat.sub_zero, Nat.add_comm]
  congr 1
  apply Finset.sum_congr rfl
  intro i _
  rw [blockNumber_drop, Nat.succ_sub_succ]

theorem accumulate_modEq (r acc : Nat) (data : ByteString) :
    accumulate r acc data ≡ acc * r ^ blockCount data + polynomial r data [MOD prime] := by
  induction hlen : data.length using Nat.strong_induction_on generalizing acc data with
  | _ len ih =>
    subst hlen
    by_cases hnil : data = []
    · subst hnil
      show accumulate r acc [] ≡ acc * 1 + 0 [MOD prime]
      rw [accumulate_nil, Nat.mul_one, Nat.add_zero]
    have hpos := List.length_pos_iff.mpr hnil
    have hcount : blockCount data = blockCount (data.drop 16) + 1 := by
      unfold blockCount
      rw [List.length_drop]
      omega
    have hfirst : ofLE (data.take 16 ++ [1]) = blockNumber data 0 := rfl
    rw [accumulate_ne_nil hnil, polynomial_step hnil, hfirst]
    calc accumulate r ((acc + blockNumber data 0) * r % prime) (data.drop 16)
        ≡ (acc + blockNumber data 0) * r % prime * r ^ blockCount (data.drop 16) +
            polynomial r (data.drop 16) [MOD prime] :=
          ih _ (by rw [List.length_drop]; omega) _ _ rfl
      _ ≡ (acc + blockNumber data 0) * r * r ^ blockCount (data.drop 16) +
            polynomial r (data.drop 16) [MOD prime] :=
          ((Nat.mod_modEq _ _).mul_right _).add_right _
      _ = acc * r ^ blockCount data + (blockNumber data 0 * r ^ blockCount data +
            polynomial r (data.drop 16)) := by
          rw [hcount, Nat.pow_succ]
          ring

theorem accumulate_eq_polynomial (r : Nat) (data : ByteString) :
    accumulate r 0 data = polynomial r data % prime := by
  have hlt : accumulate r 0 data < prime := by
    by_cases hnil : data = []
    · subst hnil
      rw [accumulate_nil]
      decide
    · exact accumulate_lt hnil
  have hmod := accumulate_modEq r 0 data
  rw [Nat.zero_mul, Nat.zero_add] at hmod
  rw [← Nat.mod_eq_of_lt hlt]
  exact hmod

end Poly1305
