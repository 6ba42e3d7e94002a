import TfPsaCrypto.Builtin.BignumCore
import TfPsaCrypto.Builtin.BignumMontgomery

/-!
# Montgomery multiplication on limbs

`mbedtls_mpi_core_montmul` with its working limbs.
-/

namespace TfPsaCrypto

open Limbs

variable {w : Nat}

/-! ## Functions -/

/-- The loop of `mbedtls_mpi_core_montmul`, for the limbs of `A` from the limb `i` on. -/
def montmulLoop (udbl : Bool) (B N : List (BitVec w)) (mm : BitVec w) :
    Nat → List (BitVec w) → List (BitVec w) → Option (List (BitVec w))
  | _, [], T => some T
  | i, u0 :: A, T => do
    let u1 := (T.getD i 0 + u0 * B.getD 0 0) * mm
    let T ← mlaAt udbl T i (N.length + 2) B u0
    let T ← mlaAt udbl T i (N.length + 2) N u1
    montmulLoop udbl B N mm (i + 1) A T

/-- `mbedtls_mpi_core_montmul`: the limbs of `X`, which may be `A` or `B`: it is written after they
are read. `none` outside the `2 * AN_limbs + 1` limbs of `T`. -/
def coreMontmul (udbl : Bool) (A B N : List (BitVec w)) (mm : BitVec w) :
    Option (List (BitVec w)) := do
  let T ← montmulLoop udbl B N mm 0 A (List.replicate (2 * N.length + 1) 0)
  let T := T.drop N.length
  let carry := T.getD N.length 0
  let difference := mbedtlsMpiCoreSub 0 (T.take N.length) N
  some (if carry ^^^ difference.2 ≠ 0 then T.take N.length else difference.1)

def coreToMontRep (udbl : Bool) (A N : List (BitVec w)) (mm : BitVec w) (rr : List (BitVec w)) :
    Option (List (BitVec w)) :=
  coreMontmul udbl A rr N mm

def coreFromMontRep (udbl : Bool) (A N : List (BitVec w)) (mm : BitVec w) :
    Option (List (BitVec w)) :=
  coreMontmul udbl A [1] N mm

/-! ## The loop -/

section Correct

variable (hw : w = 2 * biH w) (hpos : 0 < w) (udbl : Bool) {B N : List (BitVec w)} {mm : BitVec w}

theorem getD_drop_toNat (T : List (BitVec w)) (i : Nat) :
    (T.getD i 0#w).toNat = value (T.drop i) % 2 ^ w := by
  rw [getD_toNat, value_drop]

theorem quotientWord_eq {T : List (BitVec w)} {i : Nat} (u0 : BitVec w) :
    ((T.getD i 0 + u0 * B.getD 0 0) * mm).toNat =
      Montgomery.quotientWord (2 ^ w) mm.toNat (value B) u0.toNat (value (T.drop i)) := by
  have hB := getD_drop_toNat B 0
  have hT := getD_drop_toNat T i
  rw [List.drop_zero] at hB
  unfold Montgomery.quotientWord
  simp only [BitVec.ofNat_eq_ofNat]
  rw [BitVec.toNat_mul, BitVec.toNat_add, BitVec.toNat_mul, hB, hT, Nat.add_mod_mod]

include hw hpos

theorem montmulLoop_eq (hmm : (mm.toNat * value N + 1) % 2 ^ w = 0) (hB : B.length ≤ N.length)
    (hBN : value B ≤ value N) {A T : List (BitVec w)} {i : Nat}
    (hlen : i + A.length ≤ N.length) (hT : T.length = 2 * N.length + 1)
    (hlt : value (T.drop i) < value B + value N) :
    ∃ T', montmulLoop udbl B N mm i A T = some T' ∧ T'.length = 2 * N.length + 1 ∧
      value (T'.drop (i + A.length)) =
        Montgomery.loop (2 ^ w) (value N) mm.toNat (value B) A.length (value A)
          (value (T.drop i)) := by
  induction A generalizing i T with
  | nil => exact ⟨T, rfl, hT, rfl⟩
  | cons u0 A ih =>
    rw [List.length_cons] at hlen
    have hN := value_lt N
    have hu0 := u0.isLt
    have hW := Nat.two_pow_pos w
    have hW2 : 2 ≤ 2 ^ w := by
      have hle := Nat.pow_le_pow_right (n := 2) (by decide) hpos
      simpa using hle
    have hquotient : ((T.getD i 0 + u0 * B.getD 0 0) * mm).toNat = Montgomery.quotientWord
        (2 ^ w) mm.toNat (value B) u0.toNat (value (T.drop i)) := quotientWord_eq u0
    generalize hu1 : (T.getD i 0 + u0 * B.getD 0 0) * mm = u1 at hquotient
    -- the two products fit into the window
    have hroom : 2 * (2 ^ w * value N) < 2 ^ (w * (N.length + 2)) := by
      rw [pow_succ_limb, pow_succ_limb]
      calc 2 * (2 ^ w * value N) < 2 * (2 ^ w * 2 ^ (w * N.length)) :=
            Nat.mul_lt_mul_of_pos_left (Nat.mul_lt_mul_of_pos_left hN hW) (by decide)
        _ ≤ 2 ^ w * (2 ^ w * 2 ^ (w * N.length)) := Nat.mul_le_mul_right _ hW2
    have hfirst : value B * u0.toNat + value B ≤ 2 ^ w * value N := by
      calc value B * u0.toNat + value B = value B * (u0.toNat + 1) := by ring
        _ ≤ value N * 2 ^ w := Nat.mul_le_mul hBN hu0
        _ = 2 ^ w * value N := Nat.mul_comm _ _
    have hsecond : value N * u1.toNat + value N ≤ 2 ^ w * value N := by
      calc value N * u1.toNat + value N = value N * (u1.toNat + 1) := by ring
        _ ≤ value N * 2 ^ w := Nat.mul_le_mul_left _ u1.isLt
        _ = 2 ^ w * value N := Nat.mul_comm _ _
    obtain ⟨T₁, hrun₁, hlength₁, _, hvalue₁⟩ :=
      mlaAt_eq hw hpos udbl u0 (show i + (N.length + 2) ≤ T.length by omega)
        (show B.length ≤ N.length + 2 by omega) (by omega)
    obtain ⟨T₂, hrun₂, hlength₂, _, hvalue₂⟩ :=
      mlaAt_eq hw hpos udbl u1 (show i + (N.length + 2) ≤ T₁.length by omega)
        (show N.length ≤ N.length + 2 by omega) (by rw [hvalue₁]; omega)
    have hstep : value (T₂.drop (i + 1)) = Montgomery.step (2 ^ w) (value N) mm.toNat (value B)
        u0.toNat (value (T.drop i)) := by
      have hdrop := value_drop (T₂.drop i) 1
      rw [List.drop_drop, Nat.mul_one, hvalue₂, hvalue₁, hquotient] at hdrop
      rw [hdrop]
      unfold Montgomery.step
      rw [Nat.mul_comm (value B), Nat.mul_comm (value N)]
    have hbound : value (T₂.drop (i + 1)) < value B + value N := by
      rw [hstep]
      exact Montgomery.step_lt hW hmm hu0 hlt
    obtain ⟨T', hrun, hlength, hvalue⟩ :=
      @ih T₂ (i + 1) (by omega) (hlength₂.trans (hlength₁.trans hT)) hbound
    obtain ⟨hlow, hhigh⟩ := div_value_cons u0 A
    refine ⟨T', ?_, hlength, ?_⟩
    · unfold montmulLoop
      simp only [hu1]
      rw [hrun₁, Option.bind_eq_bind, Option.bind_some, hrun₂, Option.bind_some, hrun]
    · rw [List.length_cons, Montgomery.loop, hlow, hhigh, ← hstep, ← hvalue]
      congr 2
      omega

/-! ## The last subtraction -/

omit hw in
theorem selectDifference {t n : Nat} {carry : BitVec w} {low : List (BitVec w)}
    {difference : List (BitVec w) × BitVec w} (hN : value N < 2 ^ (w * n))
    (hlt : t < value B + value N) (hBN : value B ≤ value N)
    (hcarry : carry.toNat = t / 2 ^ (w * n) % 2 ^ w) (hlength : low.length = n)
    (hlow : value low = t % 2 ^ (w * n)) (hlengthX : difference.1.length = n)
    (hborrow : difference.2.toNat ≤ 1)
    (hsub : value difference.1 + value N = t % 2 ^ (w * n) + 2 ^ (w * n) * difference.2.toNat) :
    ∃ X, (if carry ^^^ difference.2 ≠ 0 then low else difference.1) = X ∧ X.length = n ∧
      value X = if t ≥ value N then t - value N else t := by
  have hW : 1 < 2 ^ w := Nat.one_lt_two_pow (by omega)
  have hX := value_lt difference.1
  rw [hlengthX] at hX
  have hne : carry ^^^ difference.2 ≠ 0 ↔ carry.toNat ≠ difference.2.toNat := by
    rw [not_iff_not]
    constructor
    · intro hzero
      exact congrArg BitVec.toNat (BitVec.xor_eq_zero_iff.mp hzero)
    · intro heq
      exact BitVec.xor_eq_zero_iff.mpr (BitVec.eq_of_toNat_eq heq)
  have hone : difference.2.toNat = 0 ∨ difference.2.toNat = 1 := by omega
  refine ⟨_, rfl, by split <;> assumption, ?_⟩
  rcases Nat.lt_or_ge t (2 ^ (w * n)) with hsmall | hbig
  · rw [Nat.div_eq_of_lt hsmall, Nat.zero_mod] at hcarry
    rw [Nat.mod_eq_of_lt hsmall] at hlow hsub
    rcases hone with hzero | hone
    · rw [if_neg (by rw [hne, hcarry, hzero]; decide), if_pos (by rw [hzero] at hsub; omega)]
      rw [hzero] at hsub
      omega
    · rw [if_pos (by rw [hne, hcarry, hone]; decide), if_neg (by rw [hone] at hsub; omega), hlow]
  · have hdiv : t / 2 ^ (w * n) = 1 := Nat.div_eq_of_lt_le (by omega) (by omega)
    have hmod : t % 2 ^ (w * n) = t - 2 ^ (w * n) := by
      rw [Nat.mod_eq_sub_mod hbig, Nat.mod_eq_of_lt (by omega)]
    rw [hdiv, Nat.mod_eq_of_lt hW] at hcarry
    rw [hmod] at hlow hsub
    rcases hone with hzero | hone
    · rw [hzero] at hsub
      omega
    · rw [if_neg (by rw [hne, hcarry, hone]; decide), if_pos (by omega)]
      rw [hone] at hsub
      omega

theorem coreMontmul_eq (hmm : (mm.toNat * value N + 1) % 2 ^ w = 0) (hB : B.length ≤ N.length)
    (hBN : value B ≤ value N) (hN : 0 < value N) {A : List (BitVec w)}
    (hlen : A.length = N.length) :
    ∃ X, coreMontmul udbl A B N mm = some X ∧ X.length = N.length ∧
      value X = mbedtlsMpiCoreMontmul w N.length (value A) (value B) (value N) mm := by
  have hzero : value ((List.replicate (2 * N.length + 1) (0 : BitVec w)).drop 0) = 0 :=
    value_replicate_zero _
  obtain ⟨T, hrun, hlength, hvalue⟩ := montmulLoop_eq hw hpos udbl hmm hB hBN (A := A) (i := 0)
    (T := List.replicate (2 * N.length + 1) 0) (by omega) List.length_replicate
    (by rw [hzero]; omega)
  rw [Nat.zero_add, hzero, hlen] at hvalue
  have hlt := Montgomery.loop_lt (Nat.two_pow_pos w) hmm (B := value B) (n := N.length)
    (A := value A) (T := 0) (by omega)
  rw [← hvalue] at hlt
  have hwindow : ((T.drop N.length).take N.length).length = N.length := by
    rw [List.length_take, List.length_drop]
    omega
  have hlow : value ((T.drop N.length).take N.length) =
      value (T.drop N.length) % 2 ^ (w * N.length) := value_take _ _
  have hcarry : ((T.drop N.length).getD N.length 0).toNat =
      value (T.drop N.length) / 2 ^ (w * N.length) % 2 ^ w := getD_toNat _ _
  obtain ⟨hlengthX, hborrow, hsub⟩ := mbedtlsMpiCoreSub_eq hpos (B := N) hwindow (c := 0) (by simp)
  rw [hwindow, hlow, show (0 : BitVec w).toNat = 0 by simp, Nat.add_zero] at hsub
  obtain ⟨X, hX, hlengthR, hR⟩ := selectDifference hpos (value_lt N) hlt hBN hcarry hwindow
    hlow (hlengthX.trans hwindow) hborrow hsub
  refine ⟨X, ?_, hlengthR, ?_⟩
  · unfold coreMontmul
    rw [hrun, Option.bind_eq_bind, Option.bind_some, ← hX]
  · rw [hR, hvalue]
    rfl

end Correct

/-- **Montgomery multiplication.** For every odd modulus the constant is right, the product is
reduced and exact, `T` is large enough, and the conversion and back gives the number. -/
theorem coreMontmul_correct (hw : w = 32 ∨ w = 64) (udbl : Bool) (N : List (BitVec w))
    (hodd : value N % 2 = 1) :
    ((mbedtlsMpiCoreMontmulInit (N.getD 0 0)).toNat * value N + 1) % 2 ^ w = 0 ∧
      (∀ A B : List (BitVec w), A.length = N.length → value A < value N → 1 ≤ B.length →
        B.length ≤ N.length → value B < value N →
        ∃ X, coreMontmul udbl A B N (mbedtlsMpiCoreMontmulInit (N.getD 0 0)) = some X ∧
          X.length = N.length ∧ value X < value N ∧
          value X * 2 ^ (N.length * w) ≡ value A * value B [MOD value N]) ∧
      ∀ A rr : List (BitVec w), A.length = N.length → value A < value N →
        rr.length = N.length → value rr = 2 ^ (2 * (N.length * w)) % value N →
        ∃ X, coreToMontRep udbl A N (mbedtlsMpiCoreMontmulInit (N.getD 0 0)) rr = some X ∧
          coreFromMontRep udbl X N (mbedtlsMpiCoreMontmulInit (N.getD 0 0)) = some A := by
  have hhalf : w = 2 * biH w := by
    rcases hw with rfl | rfl <;> rfl
  have hpos : 0 < w := by omega
  have hNpos : 0 < value N := by omega
  have hlow : (N.getD 0 0).toNat = value N % 2 ^ w := getD_drop_toNat N 0
  have hmm : ((mbedtlsMpiCoreMontmulInit (N.getD 0 0)).toNat * value N + 1) % 2 ^ w = 0 := by
    have hlowodd : (N.getD 0 0).toNat % 2 = 1 := by
      rw [hlow, Nat.mod_mod_of_dvd _ (dvd_pow_self 2 (by omega)), hodd]
    have hinit : (mbedtlsMpiCoreMontmulInit (N.getD 0 0)).toNat * (N.getD 0 0).toNat + 1 ≡
        0 [MOD 2 ^ w] := mbedtlsMpiCoreMontmulInit_eq hw hlowodd
    have hword : value N ≡ (N.getD 0 0).toNat [MOD 2 ^ w] := by
      rw [hlow]
      exact (Nat.mod_modEq _ _).symm
    exact ((hword.mul_left _).add_right 1).trans hinit
  have hcoprime : (value N).Coprime ((2 ^ w) ^ N.length) := by
    rw [← Nat.pow_mul]
    exact Nat.Coprime.pow_right _ (Nat.coprime_two_right.mpr (Nat.odd_iff.mpr hodd))
  have hpow : 2 ^ (N.length * w) = (2 ^ w) ^ N.length := by
    rw [Nat.mul_comm, Nat.pow_mul]
  have hNlt : value N < (2 ^ w) ^ N.length := by
    have hlt := value_lt N
    rwa [Nat.pow_mul] at hlt
  -- the product, also by the modulus itself
  have hmul : ∀ A B : List (BitVec w), A.length = N.length → value A < value N →
      B.length ≤ N.length → value B ≤ value N →
      ∃ X, coreMontmul udbl A B N (mbedtlsMpiCoreMontmulInit (N.getD 0 0)) = some X ∧
        X.length = N.length ∧ value X < value N ∧
        (2 ^ w) ^ N.length * value X ≡ value A * value B [MOD value N] := by
    intro A B hA hAlt hBlen hB
    obtain ⟨X, hrun, hlength, hvalue⟩ := coreMontmul_eq hhalf hpos udbl hmm hBlen hB hNpos hA
    refine ⟨X, hrun, hlength, ?_, ?_⟩
    · rw [hvalue]
      exact Montgomery.mul_lt_of_le (Nat.two_pow_pos w) hmm hNpos hB
    · rw [hvalue]
      exact Montgomery.mul_modEq hmm (hAlt.trans hNlt)
  refine ⟨hmm, ?_, ?_⟩
  · intro A B hA hAlt _ hBlen hB
    obtain ⟨X, hrun, hlength, hlt, hmod⟩ := hmul A B hA hAlt hBlen (Nat.le_of_lt hB)
    refine ⟨X, hrun, hlength, hlt, ?_⟩
    rw [hpow, Nat.mul_comm]
    exact hmod
  · intro A rr hA hAlt hrr hrrvalue
    have hrrlt : value rr < value N := by
      rw [hrrvalue]
      exact Nat.mod_lt _ hNpos
    have hone : value [(1 : BitVec w)] = 1 := by
      have htoNat : (1 : BitVec w).toNat = 1 := BitVec.toNat_one hpos
      rw [value_cons, value_nil, htoNat, Nat.mul_zero, Nat.add_zero]
    have hlength1 : [(1 : BitVec w)].length ≤ N.length := by
      rcases Nat.eq_zero_or_pos N.length with hzero | hpos
      · rw [List.eq_nil_of_length_eq_zero hzero, value_nil] at hNpos
        exact absurd hNpos (by decide)
      · exact hpos
    obtain ⟨X, hto, hlengthX, hltX, hmodX⟩ :=
      hmul A rr hA hAlt (Nat.le_of_eq hrr) (Nat.le_of_lt hrrlt)
    obtain ⟨Y, hfrom, hlengthY, hltY, hmodY⟩ := hmul X [1] hlengthX hltX hlength1 (by omega)
    have hvalue : value Y = value A := by
      apply Nat.ModEq.eq_of_lt_of_lt _ hltY hAlt
      apply Nat.ModEq.cancel_left_of_coprime (c := (2 ^ w) ^ N.length) hcoprime
      apply Nat.ModEq.cancel_left_of_coprime (c := (2 ^ w) ^ N.length) hcoprime
      have hsquare : value rr ≡ (2 ^ w) ^ N.length * (2 ^ w) ^ N.length [MOD value N] := by
        rw [hrrvalue, Nat.two_mul, Nat.pow_add, hpow]
        exact Nat.mod_modEq _ _
      calc (2 ^ w) ^ N.length * ((2 ^ w) ^ N.length * value Y)
          ≡ (2 ^ w) ^ N.length * (value X * value [(1 : BitVec w)]) [MOD value N] :=
            hmodY.mul_left _
        _ = (2 ^ w) ^ N.length * value X := by rw [hone, Nat.mul_one]
        _ ≡ value A * value rr [MOD value N] := hmodX
        _ ≡ value A * ((2 ^ w) ^ N.length * (2 ^ w) ^ N.length) [MOD value N] := hsquare.mul_left _
        _ = (2 ^ w) ^ N.length * ((2 ^ w) ^ N.length * value A) := by ring
    refine ⟨X, hto, ?_⟩
    unfold coreFromMontRep
    rw [hfrom, value_inj (hlengthY.trans hA.symm) hvalue]

/-- A modulus of two limbs. -/
theorem coreMontmul_correct_two :
    value [(7 : BitVec 64), 1] % 2 = 1 ∧
      ∃ X, coreMontmul true [2, 0] [3] [(7 : BitVec 64), 1]
          (mbedtlsMpiCoreMontmulInit ([(7 : BitVec 64), 1].getD 0 0)) = some X ∧
        X.length = 2 ∧ value X < value [(7 : BitVec 64), 1] ∧
        value X * 2 ^ (2 * 64) ≡ value [(2 : BitVec 64), 0] * value [(3 : BitVec 64)]
          [MOD value [(7 : BitVec 64), 1]] :=
  ⟨by decide, (coreMontmul_correct (Or.inr rfl) true [(7 : BitVec 64), 1] (by decide)).2.1
    [2, 0] [3] rfl (by decide) (by decide) (by decide) (by decide)⟩

end TfPsaCrypto
