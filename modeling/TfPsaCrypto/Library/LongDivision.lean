import Mathlib.Tactic.Linarith
import Mathlib.Tactic.Ring

/-!
# Long division

A quotient in base `b`, digit by digit, estimated from leading digits.
-/

namespace LongDivision

/-! ## A divisor of two digits -/

section TwoDigits

variable {b d d₀ d₁ u m q r : Nat}

theorem digit_le_estimate (hd : d = d₁ * b + d₀) (hd₁ : 0 < d₁) (hm : m < b) :
    (u * b + m) / d ≤ u / d₁ := by
  rw [Nat.le_div_iff_mul_le hd₁, ← Nat.lt_succ_iff]
  have hle := Nat.div_mul_le_self (u * b + m) d
  generalize (u * b + m) / d = k at hle ⊢
  apply Nat.lt_of_mul_lt_mul_right (a := b)
  calc k * d₁ * b ≤ k * d := by
        rw [hd, Nat.mul_assoc]
        exact Nat.mul_le_mul_left _ (Nat.le_add_right _ _)
    _ ≤ u * b + m := hle
    _ < (u + 1) * b := by
        rw [Nat.succ_mul]
        omega

theorem product_gt_iff (hd : d = d₁ * b + d₀) (hqr : q * d₁ + r = u) :
    q * d₀ > b * r + m ↔ q * d > u * b + m := by
  have hprod : q * d = q * d₁ * b + q * d₀ := by
    rw [hd]
    ring
  have hsum : u * b + m = q * d₁ * b + (b * r + m) := by
    rw [← hqr]
    ring
  rw [hprod, hsum]
  omega

theorem product_le_of_rest (hd : d = d₁ * b + d₀) (hqr : q * d₁ + r = u) (hu : u < d)
    (hd₀ : d₀ < b) (hr : b ≤ r) : q < b ∧ q * d ≤ u * b + m := by
  have hq : q < b := by
    have hlt : q * d₁ < b * d₁ := by
      rw [Nat.mul_comm b d₁]
      omega
    exact Nat.lt_of_mul_lt_mul_right hlt
  refine ⟨hq, ?_⟩
  by_contra hgt
  rw [Nat.not_le, ← gt_iff_lt, ← product_gt_iff hd hqr] at hgt
  have hsmall : q * d₀ ≤ b * b := Nat.mul_le_mul (Nat.le_of_lt hq) (Nat.le_of_lt hd₀)
  have hlarge : b * b ≤ b * r := Nat.mul_le_mul_left _ hr
  omega

end TwoDigits

theorem eq_div_of_product_le {n d q : Nat} (hd : 0 < d) (hge : n / d ≤ q) (hle : q * d ≤ n) :
    q = n / d :=
  Nat.le_antisymm ((Nat.le_div_iff_mul_le hd).mpr hle) hge

/-! ## A divisor of any length -/

section Digits

variable {b X Y : Nat} {e t : Nat}

theorem digit_mul_lead_le (hb : 0 < b) :
    X / (Y * b ^ e) * (Y / b ^ t) ≤ X / b ^ (e + t) := by
  have hpow : 0 < b ^ (e + t) := Nat.pow_pos hb
  rw [Nat.le_div_iff_mul_le hpow]
  calc X / (Y * b ^ e) * (Y / b ^ t) * b ^ (e + t)
      = X / (Y * b ^ e) * ((Y / b ^ t * b ^ t) * b ^ e) := by
        rw [Nat.pow_add]
        ring
    _ ≤ X / (Y * b ^ e) * (Y * b ^ e) := by
        exact Nat.mul_le_mul_left _ (Nat.mul_le_mul_right _ (Nat.div_mul_le_self _ _))
    _ ≤ X := Nat.div_mul_le_self _ _

theorem digit_le_lead (hb : 0 < b) (hlead : 0 < Y / b ^ t) :
    X / (Y * b ^ e) ≤ X / b ^ (e + t) / (Y / b ^ t) :=
  (Nat.le_div_iff_mul_le hlead).mpr (digit_mul_lead_le hb)

theorem digit_mul_two_le (hb : 0 < b) :
    X / (Y * b ^ e) * (Y * b / b ^ t) ≤ X * b / b ^ (e + t) := by
  have h := digit_mul_lead_le (b := b) (X := X * b) (Y := Y * b) (e := e) (t := t) hb
  have hcancel : X * b / (Y * b * b ^ e) = X / (Y * b ^ e) := by
    rw [Nat.mul_right_comm, Nat.mul_div_mul_right _ _ hb]
  rwa [hcancel] at h

theorem le_digit_succ (hb : 0 < b) (hY : b ^ t ≤ Y) {q : Nat} (hq : q < b)
    (hle : q * (Y * b / b ^ t) ≤ X * b / b ^ (e + t)) : q ≤ X / (Y * b ^ e) + 1 := by
  by_contra hgt
  have hpow : 0 < b ^ (e + t) := Nat.pow_pos hb
  have hpowt : 0 < b ^ t := Nat.pow_pos hb
  have hpowe : 0 < b ^ e := Nat.pow_pos hb
  have hD : 0 < Y * b ^ e := Nat.mul_pos (by omega) hpowe
  obtain ⟨p, rfl⟩ := Nat.exists_eq_succ_of_ne_zero (n := q) (by
    rintro rfl
    exact hgt (Nat.zero_le _))
  have hp : X / (Y * b ^ e) < p := Nat.lt_of_succ_lt_succ (Nat.not_le.mp hgt)
  rw [Nat.div_lt_iff_lt_mul hD] at hp
  rw [Nat.le_div_iff_mul_le hpow] at hle
  -- the two leading digits of the divisor
  have hV : b ≤ Y * b / b ^ t := by
    rw [Nat.le_div_iff_mul_le hpowt, Nat.mul_comm]
    exact Nat.mul_le_mul_right _ hY
  have hYlt : Y * b < (Y * b / b ^ t + 1) * b ^ t := by
    have h := Nat.lt_div_mul_add (a := Y * b) hpowt
    rw [Nat.succ_mul]
    exact h
  generalize Y * b / b ^ t = V at hle hV hYlt
  have hchain : (p + 1) * V * b ^ (e + t) < p * (V + 1) * b ^ (e + t) ∨ p = 0 := by
    rcases Nat.eq_zero_or_pos p with hzero | hpos
    · exact Or.inr hzero
    left
    calc (p + 1) * V * b ^ (e + t) ≤ X * b := hle
      _ < p * (Y * b ^ e) * b := Nat.mul_lt_mul_of_pos_right hp hb
      _ = p * (Y * b) * b ^ e := by ring
      _ ≤ p * ((V + 1) * b ^ t) * b ^ e :=
          Nat.mul_le_mul_right _ (Nat.mul_le_mul_left _ (Nat.le_of_lt hYlt))
      _ = p * (V + 1) * b ^ (e + t) := by
          rw [Nat.pow_add]
          ring
  rcases hchain with hlt | rfl
  · have hcmp : (p + 1) * V < p * (V + 1) := Nat.lt_of_mul_lt_mul_right hlt
    have hexp : p * V + V < p * V + p := by
      calc p * V + V = (p + 1) * V := by ring
        _ < p * (V + 1) := hcmp
        _ = p * V + p := by ring
    omega
  · omega

theorem digit_rest (hb : 0 < b) (hY : 0 < Y) :
    X = X / (Y * b ^ e) * (Y * b ^ e) + X % (Y * b ^ e) ∧ X % (Y * b ^ e) < Y * b ^ e := by
  refine ⟨?_, Nat.mod_lt _ (Nat.mul_pos hY (Nat.pow_pos hb))⟩
  rw [Nat.mul_comm, Nat.div_add_mod]

end Digits

end LongDivision
