import Mathlib.Data.BitVec
import Mathlib.Tactic.Ring

/-!
# Numbers as lists of limbs

A list of words of `w` bits, least significant first, denotes a natural number in base
`2 ^ w`. The carry of an addition and the borrow of a subtraction of two words are in the
equations at the end.
-/

namespace Limbs

variable {w : Nat}

def value : List (BitVec w) → Nat
  | [] => 0
  | x :: xs => x.toNat + 2 ^ w * value xs

/-- The `k` low limbs of a number. -/
def ofNat (w : Nat) : Nat → Nat → List (BitVec w)
  | 0, _ => []
  | k + 1, n => BitVec.ofNat w n :: ofNat w k (n / 2 ^ w)

@[simp] theorem value_nil : value ([] : List (BitVec w)) = 0 := rfl

@[simp] theorem value_cons (x : BitVec w) (xs : List (BitVec w)) :
    value (x :: xs) = x.toNat + 2 ^ w * value xs := rfl

@[simp] theorem length_ofNat (k n : Nat) : (ofNat w k n).length = k := by
  induction k generalizing n with
  | zero => rfl
  | succ k ih => simp [ofNat, ih]

theorem pow_succ_limb (k : Nat) : 2 ^ (w * (k + 1)) = 2 ^ w * 2 ^ (w * k) := by
  rw [Nat.mul_succ, Nat.pow_add, Nat.mul_comm]

theorem value_lt (xs : List (BitVec w)) : value xs < 2 ^ (w * xs.length) := by
  induction xs with
  | nil => simp
  | cons x xs ih =>
    have hx := x.isLt
    rw [value_cons, List.length_cons, pow_succ_limb]
    calc x.toNat + 2 ^ w * value xs
        < 2 ^ w + 2 ^ w * value xs := Nat.add_lt_add_right hx _
      _ = 2 ^ w * (value xs + 1) := by ring
      _ ≤ 2 ^ w * 2 ^ (w * xs.length) := Nat.mul_le_mul_left _ ih

theorem value_append (xs ys : List (BitVec w)) :
    value (xs ++ ys) = value xs + 2 ^ (w * xs.length) * value ys := by
  induction xs with
  | nil => simp
  | cons x xs ih =>
    rw [List.cons_append, value_cons, ih, List.length_cons, pow_succ_limb, value_cons]
    ring

theorem value_take_add_drop (xs : List (BitVec w)) {k : Nat} (h : k ≤ xs.length) :
    value (xs.take k) + 2 ^ (w * k) * value (xs.drop k) = value xs := by
  have hsplit := value_append (xs.take k) (xs.drop k)
  rw [List.take_append_drop, List.length_take, Nat.min_eq_left h] at hsplit
  exact hsplit.symm

theorem value_take (xs : List (BitVec w)) (k : Nat) :
    value (xs.take k) = value xs % 2 ^ (w * k) := by
  rcases Nat.le_total k xs.length with hk | hk
  · have hlt := value_lt (xs.take k)
    rw [List.length_take, Nat.min_eq_left hk] at hlt
    rw [← value_take_add_drop xs hk, Nat.add_mul_mod_self_left, Nat.mod_eq_of_lt hlt]
  · have hlt := Nat.lt_of_lt_of_le (value_lt xs)
      (Nat.pow_le_pow_right (by decide) (Nat.mul_le_mul_left w hk))
    rw [List.take_of_length_le hk, Nat.mod_eq_of_lt hlt]

theorem value_drop (xs : List (BitVec w)) (k : Nat) :
    value (xs.drop k) = value xs / 2 ^ (w * k) := by
  rcases Nat.le_total k xs.length with hk | hk
  · have hlt := value_lt (xs.take k)
    rw [List.length_take, Nat.min_eq_left hk] at hlt
    rw [← value_take_add_drop xs hk, Nat.add_mul_div_left _ _ (Nat.two_pow_pos _),
      Nat.div_eq_of_lt hlt, Nat.zero_add]
  · have hlt := Nat.lt_of_lt_of_le (value_lt xs)
      (Nat.pow_le_pow_right (by decide) (Nat.mul_le_mul_left w hk))
    rw [List.drop_eq_nil_of_le hk, Nat.div_eq_of_lt hlt, value_nil]

@[simp] theorem value_replicate_zero (k : Nat) : value (List.replicate k (0#w)) = 0 := by
  induction k with
  | zero => rfl
  | succ k ih => simp [List.replicate_succ, ih]

@[simp] theorem value_append_replicate_zero (xs : List (BitVec w)) (k : Nat) :
    value (xs ++ List.replicate k (0#w)) = value xs := by
  simp [value_append]

theorem value_ofNat (k n : Nat) : value (ofNat w k n) = n % 2 ^ (w * k) := by
  induction k generalizing n with
  | zero => simp [ofNat, Nat.mod_one]
  | succ k ih => rw [ofNat, value_cons, ih, BitVec.toNat_ofNat, pow_succ_limb, Nat.mod_mul]

theorem value_ofNat_of_lt {k n : Nat} (h : n < 2 ^ (w * k)) : value (ofNat w k n) = n := by
  rw [value_ofNat, Nat.mod_eq_of_lt h]

theorem div_value_cons (x : BitVec w) (xs : List (BitVec w)) :
    value (x :: xs) % 2 ^ w = x.toNat ∧ value (x :: xs) / 2 ^ w = value xs := by
  have hx := x.isLt
  rw [value_cons]
  constructor
  · rw [Nat.add_mul_mod_self_left, Nat.mod_eq_of_lt hx]
  · rw [Nat.add_mul_div_left _ _ (Nat.two_pow_pos w), Nat.div_eq_of_lt hx, Nat.zero_add]

theorem value_inj {xs ys : List (BitVec w)} (hlen : xs.length = ys.length)
    (h : value xs = value ys) : xs = ys := by
  induction xs generalizing ys with
  | nil => exact (List.eq_nil_of_length_eq_zero hlen.symm).symm
  | cons x xs ih =>
    cases ys with
    | nil => simp at hlen
    | cons y ys =>
      obtain ⟨hxl, hxr⟩ := div_value_cons x xs
      obtain ⟨hyl, hyr⟩ := div_value_cons y ys
      rw [h, hyl] at hxl
      rw [h, hyr] at hxr
      rw [BitVec.eq_of_toNat_eq hxl.symm, ih (by simpa using hlen) hxr.symm]

theorem ofNat_value (xs : List (BitVec w)) : ofNat w xs.length (value xs) = xs := by
  apply value_inj (length_ofNat _ _)
  rw [value_ofNat_of_lt (value_lt xs)]

theorem value_eq_zero_iff (xs : List (BitVec w)) : value xs = 0 ↔ ∀ x ∈ xs, x = 0#w := by
  induction xs with
  | nil => simp
  | cons x xs ih =>
    rw [value_cons, Nat.add_eq_zero_iff, Nat.mul_eq_zero, List.forall_mem_cons, ← ih]
    constructor
    · rintro ⟨hx, hpow | hxs⟩
      · omega
      · exact ⟨BitVec.eq_of_toNat_eq (by simpa using hx), hxs⟩
    · rintro ⟨rfl, hxs⟩
      exact ⟨by simp, Or.inr hxs⟩

theorem getD_toNat (xs : List (BitVec w)) (i : Nat) :
    (xs.getD i 0#w).toNat = value xs / 2 ^ (w * i) % 2 ^ w := by
  induction xs generalizing i with
  | nil => simp
  | cons x xs ih =>
    obtain ⟨hlow, hhigh⟩ := div_value_cons x xs
    cases i with
    | zero => rw [List.getD_cons_zero, Nat.mul_zero, Nat.pow_zero, Nat.div_one, hlow]
    | succ i =>
      rw [List.getD_cons_succ, ih, pow_succ_limb, ← Nat.div_div_eq_div_mul, hhigh]

theorem value_set {xs : List (BitVec w)} {i : Nat} (hi : i < xs.length) (x : BitVec w) :
    value (xs.set i x) + 2 ^ (w * i) * (xs.getD i 0#w).toNat =
      value xs + 2 ^ (w * i) * x.toNat := by
  induction xs generalizing i with
  | nil => simp at hi
  | cons y ys ih =>
    cases i with
    | zero =>
      simp
      omega
    | succ i =>
      have hrec := ih (by simpa using hi)
      rw [List.set_cons_succ, List.getD_cons_succ, value_cons, value_cons, pow_succ_limb]
      calc y.toNat + 2 ^ w * value (ys.set i x) +
            2 ^ w * 2 ^ (w * i) * (ys.getD i 0#w).toNat
          = y.toNat + 2 ^ w * (value (ys.set i x) + 2 ^ (w * i) * (ys.getD i 0#w).toNat) := by ring
        _ = y.toNat + 2 ^ w * (value ys + 2 ^ (w * i) * x.toNat) := by rw [hrec]
        _ = y.toNat + 2 ^ w * value ys + 2 ^ w * 2 ^ (w * i) * x.toNat := by ring

/-! ## Carry and borrow -/

theorem toNat_add_carry (x y : BitVec w) :
    (x + y).toNat + 2 ^ w * (if x + y < y then 1 else 0) = x.toNat + y.toNat := by
  simp only [BitVec.lt_def, BitVec.toNat_add]
  rcases Nat.lt_or_ge (x.toNat + y.toNat) (2 ^ w) with hlt | hge
  · rw [Nat.mod_eq_of_lt hlt, if_neg (by omega)]
    omega
  · rw [Nat.mod_eq_sub_mod hge, Nat.mod_eq_of_lt (by omega), if_pos (by omega)]
    omega

theorem toNat_sub_borrow (x y : BitVec w) :
    (x - y).toNat + y.toNat = x.toNat + 2 ^ w * (if x < y then 1 else 0) := by
  simp only [BitVec.lt_def, BitVec.toNat_sub]
  by_cases hlt : x.toNat < y.toNat
  · rw [if_pos hlt, Nat.mod_eq_of_lt (by omega)]
    omega
  · have hwrap : 2 ^ w - y.toNat + x.toNat = x.toNat - y.toNat + 2 ^ w := by omega
    rw [if_neg hlt, hwrap, Nat.add_mod_right, Nat.mod_eq_of_lt (by omega)]
    omega

end Limbs
