import Mathlib.Data.Int.ModEq
import Mathlib.Tactic.Ring

/-!
# Montgomery multiplication

The interleaved multiplication and reduction by words, and the Newton iteration that inverts a
word.
-/

namespace Montgomery

variable {W N mm : Nat}

/-! ## The loop -/

def quotientWord (W mm B u₀ T : Nat) : Nat := (T % W + u₀ * (B % W)) % W * mm % W

/-- One word `u₀` of the first operand. -/
def step (W N mm B u₀ T : Nat) : Nat := (T + u₀ * B + quotientWord W mm B u₀ T * N) / W

/-- The `n` low words of `A`, from the low one on. -/
def loop (W N mm B : Nat) : Nat → Nat → Nat → Nat
  | 0, _, T => T
  | n + 1, A, T => loop W N mm B n (A / W) (step W N mm B (A % W) T)

/-- `A * B / W ^ n` modulo `N`. -/
def mul (W N mm n A B : Nat) : Nat :=
  let T := loop W N mm B n A 0
  if T ≥ N then T - N else T

section Facts

variable (hpos : 0 < W) (hmm : (mm * N + 1) % W = 0)

include hmm

theorem mul_step (B u₀ T : Nat) :
    W * step W N mm B u₀ T = T + u₀ * B + quotientWord W mm B u₀ T * N := by
  have hdvd : W ∣ T + u₀ * B + quotientWord W mm B u₀ T * N := by
    have hmm' : mm * N + 1 ≡ 0 [MOD W] := hmm
    have hsum : (T % W + u₀ * (B % W)) % W ≡ T + u₀ * B [MOD W] :=
      (Nat.mod_modEq _ _).trans ((Nat.mod_modEq T W).add ((Nat.mod_modEq B W).mul_left u₀))
    have hword : quotientWord W mm B u₀ T * N ≡ (T + u₀ * B) * mm * N [MOD W] :=
      ((Nat.mod_modEq _ _).trans (hsum.mul_right mm)).mul_right N
    rw [← Nat.modEq_zero_iff_dvd]
    calc T + u₀ * B + quotientWord W mm B u₀ T * N
        ≡ (T + u₀ * B) + (T + u₀ * B) * mm * N [MOD W] := hword.add_left _
      _ = (T + u₀ * B) * (mm * N + 1) := by ring
      _ ≡ (T + u₀ * B) * 0 [MOD W] := hmm'.mul_left _
      _ = 0 := Nat.mul_zero _
  exact Nat.mul_div_cancel' hdvd

theorem loop_modEq (B n A T : Nat) :
    W ^ n * loop W N mm B n A T ≡ T + A % W ^ n * B [MOD N] := by
  induction n generalizing A T with
  | zero =>
    show 1 * T ≡ T + A % 1 * B [MOD N]
    rw [Nat.mod_one, Nat.zero_mul, Nat.one_mul, Nat.add_zero]
  | succ n ih =>
    have hexact := mul_step hmm B (A % W) T
    have hsplit : A % W ^ (n + 1) = A % W + W * (A / W % W ^ n) := by
      rw [Nat.pow_succ', Nat.mod_mul]
    have hdrop : quotientWord W mm B (A % W) T * N ≡ 0 [MOD N] :=
      (Nat.modEq_zero_iff_dvd).mpr (Dvd.intro_left _ rfl)
    calc W ^ (n + 1) * loop W N mm B (n + 1) A T
        = W * (W ^ n * loop W N mm B n (A / W) (step W N mm B (A % W) T)) := by
          rw [Nat.pow_succ', Nat.mul_assoc]
          rfl
      _ ≡ W * (step W N mm B (A % W) T + A / W % W ^ n * B) [MOD N] := (ih _ _).mul_left W
      _ = W * step W N mm B (A % W) T + W * (A / W % W ^ n) * B := by ring
      _ = T + A % W * B + quotientWord W mm B (A % W) T * N + W * (A / W % W ^ n) * B := by
          rw [hexact]
      _ ≡ T + A % W * B + 0 + W * (A / W % W ^ n) * B [MOD N] := ((hdrop.add_left _).add_right _)
      _ = T + A % W ^ (n + 1) * B := by
          rw [hsplit]
          ring

theorem mul_modEq {n A B : Nat} (hA : A < W ^ n) :
    W ^ n * mul W N mm n A B ≡ A * B [MOD N] := by
  have hloop := loop_modEq hmm B n A 0
  rw [Nat.mod_eq_of_lt hA, Nat.zero_add] at hloop
  unfold mul
  simp only
  split
  · next hge =>
    have hsub : loop W N mm B n A 0 - N ≡ loop W N mm B n A 0 [MOD N] := by
      have hadd : loop W N mm B n A 0 - N + N = loop W N mm B n A 0 := Nat.sub_add_cancel hge
      conv_rhs => rw [← hadd]
      exact (Nat.add_modEq_right (a := loop W N mm B n A 0 - N)).symm
    exact (hsub.mul_left _).trans hloop
  · exact hloop

include hpos

theorem step_lt {B u₀ T : Nat} (hu : u₀ < W) (hT : T < B + N) :
    step W N mm B u₀ T < B + N := by
  have hexact := mul_step hmm B u₀ T
  have hword : quotientWord W mm B u₀ T < W := Nat.mod_lt _ hpos
  have hB : u₀ * B ≤ (W - 1) * B := Nat.mul_le_mul_right _ (by omega)
  have hN : quotientWord W mm B u₀ T * N ≤ (W - 1) * N := Nat.mul_le_mul_right _ (by omega)
  have hsplit : W * (B + N) = (B + N) + ((W - 1) * B + (W - 1) * N) := by
    obtain ⟨V, rfl⟩ : ∃ V, W = V + 1 := ⟨W - 1, by omega⟩
    rw [Nat.add_sub_cancel]
    ring
  apply Nat.lt_of_mul_lt_mul_left (a := W)
  omega

theorem loop_lt {B n A T : Nat} (hT : T < B + N) : loop W N mm B n A T < B + N := by
  induction n generalizing A T with
  | zero => exact hT
  | succ n ih => exact ih (step_lt hpos hmm (Nat.mod_lt _ hpos) hT)

theorem mul_lt_of_le {n A B : Nat} (hN : 0 < N) (hB : B ≤ N) : mul W N mm n A B < N := by
  have hlt := loop_lt hpos hmm (n := n) (A := A) (B := B) (T := 0) (by omega)
  unfold mul
  simp only
  split
  · omega
  · omega

theorem mul_lt {n A B : Nat} (hB : B < N) : mul W N mm n A B < N :=
  mul_lt_of_le hpos hmm (by omega) (Nat.le_of_lt hB)

theorem mul_mul_square {n A B RR : Nat} (hcoprime : N.Coprime (W ^ n)) (hN : N ≤ W ^ n)
    (hA : A < N) (hB : B < N) (hRR : RR < N) (hsquare : RR ≡ W ^ n * W ^ n [MOD N]) :
    mul W N mm n (mul W N mm n A RR) B = A * B % N := by
  have hlt := mul_lt (n := n) (A := mul W N mm n A RR) hpos hmm hB
  have hinner := @mul_modEq _ _ _ hmm n A RR (hA.trans_le hN)
  have houter := @mul_modEq _ _ _ hmm n (mul W N mm n A RR) B ((mul_lt hpos hmm hRR).trans_le hN)
  have hform : mul W N mm n A RR ≡ A * W ^ n [MOD N] := by
    apply Nat.ModEq.cancel_left_of_coprime (c := W ^ n) hcoprime
    calc W ^ n * mul W N mm n A RR ≡ A * RR [MOD N] := hinner
      _ ≡ A * (W ^ n * W ^ n) [MOD N] := hsquare.mul_left A
      _ = W ^ n * (A * W ^ n) := by ring
  have hplain : mul W N mm n (mul W N mm n A RR) B ≡ A * B [MOD N] := by
    apply Nat.ModEq.cancel_left_of_coprime (c := W ^ n) hcoprime
    calc W ^ n * mul W N mm n (mul W N mm n A RR) B ≡ mul W N mm n A RR * B [MOD N] := houter
      _ ≡ A * W ^ n * B [MOD N] := hform.mul_right B
      _ = W ^ n * (A * B) := by ring
  rw [← Nat.mod_eq_of_lt hlt]
  exact hplain

end Facts

/-! ## Newton iteration -/

theorem newton {a x m : Int} (h : a * x ≡ 1 [ZMOD m]) :
    a * (x * (2 - a * x)) ≡ 1 [ZMOD m * m] := by
  obtain ⟨k, hk⟩ := h.symm.dvd
  rw [Int.modEq_iff_dvd]
  refine ⟨k * k, ?_⟩
  have hax : a * x = 1 + m * k := by
    rw [← hk]
    ring
  calc 1 - a * (x * (2 - a * x)) = (1 - a * x) * (1 - a * x) := by ring
    _ = m * m * (k * k) := by
        rw [hax]
        ring

end Montgomery
