import Mathlib.Tactic.LinearCombination
import TfPsaCrypto.Builtin.BignumArithmetic

/-!
# Reduction modulo one limb

`mbedtls_mpi_mod_int` of `bignum.c`, which runs through the half limbs of a number from the top.
-/

namespace TfPsaCrypto

open Limbs

variable {w : Nat}

def biH (w : Nat) : Nat := w / 2

/-- One half limb, the high half of `x`: `y = (y << biH) | (x >> biH)`, reduced. -/
def modIntHalf (b y x : BitVec w) : BitVec w :=
  let y := (y <<< biH w) ||| (x >>> biH w)
  let z := y / b
  y - z * b

def modIntLoop (p : List (BitVec w)) (b : BitVec w) : Nat → BitVec w → BitVec w
  | 0, y => y
  | i + 1, y =>
    let x := p.getD i 0
    let y := modIntHalf b y x
    let x := x <<< biH w
    let y := modIntHalf b y x
    modIntLoop p b i y

def mbedtlsMpiModInt (A : MbedtlsMpi w) (b : Int) : Except MpiError (BitVec w) :=
  if b = 0 then .error .divisionByZero
  else if b < 0 then .error .negativeValue
  else if b = 1 ∨ A.n = 0 then .ok 0
  else if b = 2 then .ok (A.p.getD 0 0 &&& 1)
  else
    let b := BitVec.ofInt w b
    let y := modIntLoop A.p b A.n 0
    .ok (if A.s < 0 ∧ y ≠ 0 then b - y else y)

/-- `0` is returned, with the residue that `mbedtls_mpi_mod_mpi` computes. -/
def ModIntCorrect (A : MbedtlsMpi w) (b : Int) : Prop :=
  ∃ r, mbedtlsMpiModInt A b = .ok r ∧ (r.toNat : Int) = A.toInt % b ∧
    ∀ R Z n, mbedtlsMpiModMpi w R A.num ⟨b, n⟩ = .ok Z → Z.val = r.toNat

def ModIntFits (A : MbedtlsMpi w) (b : Nat) : Prop :=
  ∀ i, 0 < i → A.abs / 2 ^ (biH w * i) % b < 2 ^ biH w

/-! ## One half limb -/

theorem toNat_sub_div_mul (y b : BitVec w) : (y - y / b * b).toNat = y.toNat % b.toNat := by
  have hle : y.toNat / b.toNat * b.toNat ≤ y.toNat := Nat.div_mul_le_self _ _
  have hmul : (y / b * b).toNat = y.toNat / b.toNat * b.toNat := by
    rw [BitVec.toNat_mul, BitVec.toNat_udiv]
    exact Nat.mod_eq_of_lt (Nat.lt_of_le_of_lt hle y.isLt)
  have hsub : (y / b * b).toNat ≤ y.toNat := by
    rw [hmul]
    exact hle
  rw [BitVec.toNat_sub_of_le (BitVec.le_def.mpr hsub), hmul, Nat.mod_eq_sub_div_mul]

section Half

variable (hw : w = 2 * biH w)

include hw

theorem two_pow_eq_biH : 2 ^ w = 2 ^ biH w * 2 ^ biH w := by
  rw [← Nat.pow_add, ← Nat.two_mul, ← hw]

theorem modIntHalf_toNat {b : BitVec w} (y x : BitVec w) :
    (modIntHalf b y x).toNat =
      (y.toNat % 2 ^ biH w * 2 ^ biH w + x.toNat / 2 ^ biH w) % b.toNat := by
  have hpow := two_pow_eq_biH hw
  have hhalf : x.toNat / 2 ^ biH w < 2 ^ biH w := by
    rw [Nat.div_lt_iff_lt_mul (Nat.two_pow_pos _), ← hpow]
    exact x.isLt
  have hshift : ((y <<< biH w) ||| (x >>> biH w)).toNat =
      y.toNat % 2 ^ biH w * 2 ^ biH w + x.toNat / 2 ^ biH w := by
    rw [BitVec.toNat_or, BitVec.toNat_shiftLeft, BitVec.toNat_ushiftRight,
      Nat.shiftRight_eq_div_pow, Nat.shiftLeft_eq]
    have hmod : y.toNat * 2 ^ biH w % 2 ^ w = (y.toNat % 2 ^ biH w) * 2 ^ biH w := by
      rw [hpow, Nat.mul_mod_mul_right]
    rw [hmod, ← Nat.shiftLeft_eq, Nat.shiftLeft_add_eq_or_of_lt hhalf]
  unfold modIntHalf
  rw [toNat_sub_div_mul, hshift]

theorem modIntHalf_eq {b : BitVec w} {y x : BitVec w} {v : Nat} (hy : y.toNat = v % b.toNat)
    (h : v % b.toNat < 2 ^ biH w ∨ b.toNat ∣ 2 ^ w) :
    (modIntHalf b y x).toNat = (v * 2 ^ biH w + x.toNat / 2 ^ biH w) % b.toNat := by
  have hshift : y.toNat % 2 ^ biH w * 2 ^ biH w % b.toNat = v * 2 ^ biH w % b.toNat := by
    rcases h with hlt | hdvd
    · rw [hy, Nat.mod_eq_of_lt hlt, Nat.mod_mul_mod]
    have hlost : y.toNat * 2 ^ biH w =
        y.toNat % 2 ^ biH w * 2 ^ biH w + 2 ^ w * (y.toNat / 2 ^ biH w) := by
      have hsplit := Nat.mod_add_div y.toNat (2 ^ biH w)
      calc y.toNat * 2 ^ biH w
          = (y.toNat % 2 ^ biH w + 2 ^ biH w * (y.toNat / 2 ^ biH w)) * 2 ^ biH w := by
            rw [hsplit]
        _ = _ := by
            rw [two_pow_eq_biH hw]
            ring
    have hmod : y.toNat * 2 ^ biH w % b.toNat = y.toNat % 2 ^ biH w * 2 ^ biH w % b.toNat := by
      obtain ⟨k, hk⟩ := hdvd
      rw [hlost, hk, Nat.mul_assoc, Nat.add_mul_mod_self_left]
    rw [← hmod, hy, Nat.mod_mul_mod]
  rw [modIntHalf_toNat hw, Nat.add_mod, hshift, ← Nat.add_mod]

end Half

/-! ## The loop -/

section Loop

variable (hw : w = 2 * biH w)

include hw

theorem modIntLoop_toNat {b : BitVec w} {p : List (BitVec w)}
    (h : ∀ i, 0 < i → value p / 2 ^ (biH w * i) % b.toNat < 2 ^ biH w ∨ b.toNat ∣ 2 ^ w)
    {i : Nat} {y : BitVec w} (hy : y.toNat = value p / 2 ^ (w * i) % b.toNat) :
    (modIntLoop p b i y).toNat = value p % b.toNat := by
  induction i generalizing y with
  | zero =>
    rw [modIntLoop, hy, Nat.mul_zero, Nat.pow_zero, Nat.div_one]
  | succ i ih =>
    have hindex : w * (i + 1) = biH w * (2 * i + 2) := by
      conv_lhs => rw [hw]
      ring
    have hindex' : w * i = biH w * (2 * i) := by
      conv_lhs => rw [hw]
      ring
    have hlimb := getD_toNat p i
    have hx := (p.getD i 0#w).isLt
    generalize hX : p.getD i 0#w = x at hlimb hx
    have hpow := two_pow_eq_biH hw
    -- the high half of the limb, then the low half
    have hhigh := modIntHalf_eq hw (x := x) hy (by
      rw [hindex]
      exact h _ (by omega))
    have hnext : value p / 2 ^ (w * (i + 1)) * 2 ^ biH w + x.toNat / 2 ^ biH w =
        value p / 2 ^ (biH w * (2 * i + 1)) := by
      have hup : value p / 2 ^ (w * (i + 1)) =
          value p / 2 ^ (biH w * (2 * i + 1)) / 2 ^ biH w := by
        rw [Nat.div_div_eq_div_mul, ← Nat.pow_add, hindex]
        congr 2
      have hlow : x.toNat / 2 ^ biH w =
          value p / 2 ^ (biH w * (2 * i + 1)) % 2 ^ biH w := by
        rw [hlimb, hpow, Nat.mod_mul_right_div_self, Nat.div_div_eq_div_mul, ← Nat.pow_add, hindex']
        congr 3
      rw [hup, hlow, Nat.mul_comm, Nat.div_add_mod]
    rw [hnext] at hhigh
    have hlow := modIntHalf_eq hw (x := x <<< biH w) hhigh (h _ (by omega))
    have hlast : value p / 2 ^ (biH w * (2 * i + 1)) * 2 ^ biH w +
        (x <<< biH w).toNat / 2 ^ biH w = value p / 2 ^ (w * i) := by
      have hshift : (x <<< biH w).toNat / 2 ^ biH w =
          value p / 2 ^ (w * i) % 2 ^ biH w := by
        rw [BitVec.toNat_shiftLeft, Nat.shiftLeft_eq, hpow, Nat.mul_mod_mul_right,
          Nat.mul_div_cancel _ (Nat.two_pow_pos _), hlimb, hpow, Nat.mod_mul_right_mod]
      have hup : value p / 2 ^ (biH w * (2 * i + 1)) =
          value p / 2 ^ (w * i) / 2 ^ biH w := by
        rw [Nat.div_div_eq_div_mul, ← Nat.pow_add, hindex']
        congr 2
      rw [hshift, hup, Nat.mul_comm, Nat.div_add_mod]
    rw [hlast] at hlow
    rw [← hX] at hlow
    exact ih hlow

end Loop

/-! ## The residue -/

section Residue

variable {A : MbedtlsMpi w}

theorem toNat_ofInt_of_lt {b : Nat} (hb : b < 2 ^ (w - 1)) : (BitVec.ofInt w b).toNat = b := by
  have hlt : b < 2 ^ w := Nat.lt_of_lt_of_le hb (Nat.pow_le_pow_right (by decide) (Nat.sub_le _ _))
  rw [BitVec.ofInt_natCast, BitVec.toNat_ofNat, Nat.mod_eq_of_lt hlt]

theorem toInt_emod (hs : A.s = 1 ∨ A.s = -1) {b : Nat} (hb : 0 < b) :
    A.toInt % b = if A.s < 0 ∧ A.abs % b ≠ 0 then ((b - A.abs % b : Nat) : Int)
      else ((A.abs % b : Nat) : Int) := by
  have hlt := Nat.mod_lt A.abs hb
  have hsplit := Nat.mod_add_div A.abs b
  unfold MbedtlsMpi.toInt
  rcases hs with hs | hs
  · rw [hs, if_neg (by omega), Int.one_mul, Int.natCast_mod]
  rw [hs]
  split
  · next hne =>
    have hneg : (-1 : Int) * A.abs = (b - A.abs % b : Nat) + b * (-(A.abs / b : Nat) - 1) := by
      rw [Nat.cast_sub (Nat.le_of_lt hlt)]
      have hcast : (A.abs : Int) = (A.abs % b : Nat) + b * (A.abs / b : Nat) := by
        exact_mod_cast hsplit.symm
      linear_combination (-1 : Int) * hcast
    rw [hneg, Int.add_mul_emod_self_left]
    exact Int.emod_eq_of_lt (by omega) (by omega)
  · next hzero =>
    have hdvd : A.abs % b = 0 := by
      by_contra hne
      exact hzero ⟨by decide, hne⟩
    have hcast : (b : Int) ∣ A.abs := by exact_mod_cast Nat.dvd_of_mod_eq_zero hdvd
    rw [hdvd, Int.emod_eq_zero_of_dvd (Dvd.dvd.mul_left hcast _)]
    rfl

theorem modIntCorrect_of_fits (hw : w = 2 * biH w) (hs : A.s = 1 ∨ A.s = -1) {b : Nat}
    (hpos : 0 < b) (hb : b < 2 ^ (w - 1)) (hfits : ModIntFits A b ∨ b ∣ 2 ^ w) :
    ModIntCorrect A b := by
  have hmod : ∀ {r : BitVec w}, mbedtlsMpiModInt A b = .ok r →
      (r.toNat : Int) = A.toInt % b → ModIntCorrect A b := by
    intro r hret hr
    refine ⟨r, hret, hr, ?_⟩
    intro R Z n hZ
    rw [(of_mbedtlsMpiModMpi hZ).2.1, hr]
    rfl
  have hne : (b : Int) ≠ 0 := by omega
  have hnonneg : ¬ (b : Int) < 0 := by omega
  by_cases htriv : (b : Int) = 1 ∨ A.n = 0
  · apply hmod (r := 0)
    · unfold mbedtlsMpiModInt
      rw [if_neg hne, if_neg hnonneg, if_pos htriv]
    rcases htriv with hone | hempty
    · rw [hone, Int.emod_one]
      simp
    have habs : A.abs = 0 := by
      unfold MbedtlsMpi.abs
      rw [List.eq_nil_of_length_eq_zero hempty]
      rfl
    simp [MbedtlsMpi.toInt, habs]
  · by_cases htwo : (b : Int) = 2
    · apply hmod (r := A.p.getD 0 0 &&& 1)
      · unfold mbedtlsMpiModInt
        rw [if_neg hne, if_neg hnonneg, if_neg htriv, if_pos htwo]
      have hb2 : b = 2 := by exact_mod_cast htwo
      have hpow : 2 ∣ 2 ^ w := dvd_pow_self 2 (by
        rintro rfl
        simp at hb
        omega)
      have hlow : (A.p.getD 0 0 &&& 1).toNat = A.abs % 2 := by
        have hlimb := getD_toNat A.p 0
        have hwpos : 0 < w := by
          by_contra hzero
          simp [show w = 0 by omega] at hb
          omega
        have hone : (1 : BitVec w).toNat = 1 := BitVec.toNat_one hwpos
        rw [Nat.mul_zero, Nat.pow_zero, Nat.div_one] at hlimb
        have hand : (A.p.getD 0 0 &&& 1).toNat = value A.p % 2 ^ w % 2 := by
          rw [BitVec.toNat_and, hone, Nat.and_one_is_mod, ← hlimb]
          rfl
        rw [hand, Nat.mod_mod_of_dvd _ hpow]
        rfl
      rw [hlow, toInt_emod hs hpos, hb2]
      split <;> omega
    · have hbv := toNat_ofInt_of_lt hb
      have hloop : (modIntLoop A.p (BitVec.ofInt w b) A.n 0).toNat = A.abs % b := by
        have hrun := modIntLoop_toNat hw (b := BitVec.ofInt w b) (p := A.p) (i := A.n) (y := 0)
          (by
            intro i hi
            rw [hbv]
            rcases hfits with hfits | hdvd
            · exact Or.inl (hfits i hi)
            · exact Or.inr hdvd)
          (by
            have habove : value A.p / 2 ^ (w * A.n) = 0 := Nat.div_eq_of_lt (value_lt A.p)
            rw [habove, Nat.zero_mod]
            rfl)
        rw [hrun, hbv]
        rfl
      generalize hy : modIntLoop A.p (BitVec.ofInt w b) A.n 0 = y at hloop
      apply hmod (r := if A.s < 0 ∧ y ≠ 0 then BitVec.ofInt w b - y else y)
      · unfold mbedtlsMpiModInt
        rw [if_neg hne, if_neg hnonneg, if_neg htriv, if_neg htwo]
        simp only [hy]
      have hzero : y ≠ 0 ↔ A.abs % b ≠ 0 := by
        rw [← hloop, not_iff_not]
        constructor
        · rintro rfl
          rfl
        · intro h
          exact BitVec.eq_of_toNat_eq (by simpa using h)
      rw [toInt_emod hs hpos]
      split
      · next hneg =>
        have hle := Nat.le_of_lt (Nat.mod_lt A.abs hpos)
        rw [if_pos ⟨hneg.1, hzero.mp hneg.2⟩, BitVec.toNat_sub_of_le, hbv, hloop]
        rw [BitVec.le_def, hbv, hloop]
        exact hle
      · next hsame =>
        rw [if_neg fun h => hsame ⟨h.1, hzero.mpr h.2⟩, hloop]

theorem modIntFits_of_le (A : MbedtlsMpi w) {b : Nat} (hpos : 0 < b) (hb : b ≤ 2 ^ biH w) :
    ModIntFits A b :=
  fun _ _ => Nat.lt_of_lt_of_le (Nat.mod_lt _ hpos) hb

theorem mbedtlsMpiModInt_two_pow (hw : w = 2 * biH w) {b : Nat} (hb : b < 2 ^ (w - 1))
    (hlarge : 2 ^ biH w < b) :
    mbedtlsMpiModInt { s := 1, p := [0, 1] : MbedtlsMpi w } b = .ok 0 := by
  have hhalf : 1 < 2 ^ biH w := by
    apply Nat.one_lt_two_pow
    intro hzero
    rw [hzero] at hw hlarge
    subst hw
    simp at hb hlarge
    omega
  have hwpos : 0 < w := by
    by_contra hzero
    simp [show w = 0 by omega] at hb
    omega
  have hpow := two_pow_eq_biH hw
  have hlt : 2 ^ biH w < 2 ^ w := by
    rw [hpow]
    exact Nat.lt_mul_self_iff.mpr hhalf
  have hbv := toNat_ofInt_of_lt hb
  have hone : ((1 : BitVec w)).toNat = 1 := BitVec.toNat_one hwpos
  have hzero : ((0 : BitVec w)).toNat = 0 := rfl
  have hshift : ((1 : BitVec w) <<< biH w).toNat = 2 ^ biH w := by
    rw [BitVec.toNat_shiftLeft, hone, Nat.one_shiftLeft, Nat.mod_eq_of_lt hlt]
  have hzshift : (0 : BitVec w) <<< biH w = 0 := BitVec.zero_shiftLeft _
  unfold mbedtlsMpiModInt
  rw [if_neg (by omega), if_neg (by omega), if_neg (by
    rintro (h | h)
    · omega
    · exact absurd h (Nat.succ_ne_zero 1)), if_neg (by omega)]
  -- the remainder is 1 after the upper limb, then `2 ^ biH`, then nothing
  have hloop : modIntLoop [0, 1] (BitVec.ofInt w b) 2 0 = 0 := by
    apply BitVec.eq_of_toNat_eq
    rw [modIntLoop, modIntLoop, modIntLoop]
    simp only [List.getD_cons_zero, List.getD_cons_succ, modIntHalf_toNat hw, hbv, hone, hzero,
      hshift, hzshift]
    rw [Nat.div_eq_of_lt hhalf, Nat.div_self (by omega), Nat.zero_mod, Nat.zero_mul, Nat.zero_div]
    simp [Nat.mod_eq_of_lt hhalf, Nat.mod_eq_of_lt hlarge, Nat.mod_eq_of_lt (show 1 < b by omega)]
  show Except.ok (if _ then _ else _) = _
  rw [show modIntLoop [0, 1] (BitVec.ofInt w b)
    ({ s := 1, p := [0, 1] : MbedtlsMpi w }).n 0 = 0 from hloop]
  simp

/-- For which divisors every number is reduced, and for which numbers any divisor will do. -/
theorem mbedtlsMpiModInt_correct_iff (hw : w = 2 * biH w) {b : Nat} (hpos : 0 < b)
    (hb : b < 2 ^ (w - 1)) :
    ((∀ A : MbedtlsMpi w, A.s = 1 ∨ A.s = -1 → ModIntCorrect A b) ↔ b ≤ 2 ^ biH w ∨ b ∣ 2 ^ w) ∧
    ∀ A : MbedtlsMpi w, A.s = 1 ∨ A.s = -1 → ModIntFits A b → ModIntCorrect A b := by
  refine ⟨⟨?_, ?_⟩, ?_⟩
  · intro h
    by_contra hno
    rw [not_or, Nat.not_le] at hno
    obtain ⟨r, hret, hr, _⟩ := h { s := 1, p := [0, 1] } (Or.inl rfl)
    rw [mbedtlsMpiModInt_two_pow hw hb hno.1, Except.ok.injEq] at hret
    subst hret
    have hwpos : 0 < w := by
      by_contra hzero
      simp [show w = 0 by omega] at hb
      omega
    have hval : ({ s := 1, p := [0, 1] : MbedtlsMpi w }).toInt = (2 ^ w : Nat) := by
      simp [MbedtlsMpi.toInt, MbedtlsMpi.abs, value, hwpos]
    rw [hval] at hr
    apply hno.2
    have hdvd : (b : Int) ∣ (2 ^ w : Nat) := Int.dvd_of_emod_eq_zero hr.symm
    exact_mod_cast hdvd
  · rintro (hle | hdvd) A hs
    · exact modIntCorrect_of_fits hw hs hpos hb (Or.inl (modIntFits_of_le A hpos hle))
    · exact modIntCorrect_of_fits hw hs hpos hb (Or.inr hdvd)
  · intro A hs hfits
    exact modIntCorrect_of_fits hw hs hpos hb (Or.inl hfits)

theorem mbedtlsMpiModInt_correct_iff_ten :
    ((∀ A : MbedtlsMpi 64, A.s = 1 ∨ A.s = -1 → ModIntCorrect A (10 : Nat)) ↔
      10 ≤ 2 ^ biH 64 ∨ 10 ∣ 2 ^ 64) ∧
    ∀ A : MbedtlsMpi 64, A.s = 1 ∨ A.s = -1 → ModIntFits A 10 → ModIntCorrect A (10 : Nat) :=
  mbedtlsMpiModInt_correct_iff (by decide) (by decide) (by decide)

/-- `2 ^ 64` modulo `2 ^ 32 + 1` is 1. -/
theorem mbedtlsMpiModInt_large_divisor :
    mbedtlsMpiModInt { s := 1, p := [0, 1] : MbedtlsMpi 64 } (2 ^ 32 + 1) = .ok 0 ∧
      ({ s := 1, p := [0, 1] : MbedtlsMpi 64 }).toInt % (2 ^ 32 + 1) = 1 ∧
      ¬ ModIntCorrect { s := 1, p := [0, 1] : MbedtlsMpi 64 } (2 ^ 32 + 1) := by
  have hret : mbedtlsMpiModInt { s := 1, p := [0, 1] : MbedtlsMpi 64 } (2 ^ 32 + 1) = .ok 0 := by
    decide
  have hmod : ({ s := 1, p := [0, 1] : MbedtlsMpi 64 }).toInt % (2 ^ 32 + 1) = 1 := by decide
  refine ⟨hret, hmod, ?_⟩
  rintro ⟨r, hr, hval, _⟩
  rw [hret, Except.ok.injEq] at hr
  subst hr
  rw [hmod] at hval
  exact absurd hval (by decide)

end Residue

end TfPsaCrypto
