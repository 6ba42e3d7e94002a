import TfPsaCrypto.Builtin.IntDivInt

/-!
# Bignum core: addition, subtraction and products

The loops of `bignum_core.c` on limbs. A limb of each operand is read before the limb of the
result is written.
-/

namespace TfPsaCrypto

open Limbs

variable {w : Nat}

/-! ## Functions -/

/-- The loop of `mbedtls_mpi_core_add`: the sum and the carry. -/
def mbedtlsMpiCoreAdd : BitVec w → List (BitVec w) → List (BitVec w) → List (BitVec w) × BitVec w
  | c, a :: A, b :: B =>
    let t := c + a
    let c := if t < a then 1 else 0
    let t := t + b
    let c := c + if t < b then 1 else 0
    let rest := mbedtlsMpiCoreAdd c A B
    (t :: rest.1, rest.2)
  | c, _, _ => ([], c)

/-- The loop of `mbedtls_mpi_core_sub`: the difference and the borrow. -/
def mbedtlsMpiCoreSub : BitVec w → List (BitVec w) → List (BitVec w) → List (BitVec w) × BitVec w
  | c, a :: A, b :: B =>
    let z : BitVec w := if a < c then 1 else 0
    let t := a - c
    let c := (if t < b then 1 else 0) + z
    let rest := mbedtlsMpiCoreSub c A B
    ((t - b) :: rest.1, rest.2)
  | c, _, _ => ([], c)

def mbedtlsMpiCoreSubInt : BitVec w → List (BitVec w) → List (BitVec w) × BitVec w
  | c, [] => ([], c)
  | c, s :: A =>
    let t := s - c
    let rest := mbedtlsMpiCoreSubInt (if t > s then 1 else 0) A
    (t :: rest.1, rest.2)

/-- `MULADDC_X1_CORE` with or without `MBEDTLS_HAVE_UDBL`: the low and the high word of a product.
-/
def mulWords (udbl : Bool) (s b : BitVec w) : BitVec w × BitVec w :=
  if udbl then
    let r := s.setWidth (2 * w) * b.setWidth (2 * w)
    (r.setWidth w, (r >>> w).setWidth w)
  else
    let b0 := (b <<< biH w) >>> biH w
    let b1 := b >>> biH w
    let s0 := (s <<< biH w) >>> biH w
    let s1 := s >>> biH w
    let rx := s0 * b1
    let r0 := s0 * b0
    let ry := s1 * b0
    let r1 := s1 * b1
    let r1 := r1 + (rx >>> biH w)
    let r1 := r1 + (ry >>> biH w)
    let rx := rx <<< biH w
    let ry := ry <<< biH w
    let r0 := r0 + rx
    let r1 := r1 + if r0 < rx then 1 else 0
    let r0 := r0 + ry
    let r1 := r1 + if r0 < ry then 1 else 0
    (r0, r1)

/-- `MULADDC_X1_CORE`: the limb of the destination and the carry. -/
def muladdc (udbl : Bool) (s b d c : BitVec w) : BitVec w × BitVec w :=
  let r := mulWords udbl s b
  let r0 := r.1 + c
  let r1 := r.2 + if r0 < c then 1 else 0
  let r0 := r0 + d
  let r1 := r1 + if r0 < d then 1 else 0
  (r0, r1)

/-- From the carry `c`: the destination and the carry. -/
def mbedtlsMpiCoreMla (udbl : Bool) (b : BitVec w) :
    BitVec w → List (BitVec w) → List (BitVec w) → List (BitVec w) × BitVec w
  | c, [], _ => ([], c)
  | c, d :: ds, s :: ss =>
    let r := muladdc udbl s b d c
    let rest := mbedtlsMpiCoreMla udbl b r.2 ds ss
    (r.1 :: rest.1, rest.2)
  | c, d :: ds, [] =>
    let d := d + c
    let rest := mbedtlsMpiCoreMla udbl b (if d < c then 1 else 0) ds []
    (d :: rest.1, rest.2)

/-- `mbedtls_mpi_core_mla(X + i, len, s, s_len, b)` without the carry; `none` outside of `X`. -/
def mlaAt (udbl : Bool) (X : List (BitVec w)) (i len : Nat) (s : List (BitVec w)) (b : BitVec w) :
    Option (List (BitVec w)) :=
  if i + len ≤ X.length then
    some (X.take i ++ (mbedtlsMpiCoreMla udbl b 0 ((X.drop i).take len) s).1 ++ X.drop (i + len))
  else none

/-- The loop of `mbedtls_mpi_core_mul`, for the limbs of `B` from the limb `i` on. -/
def coreMulLoop (udbl : Bool) (A : List (BitVec w)) :
    Nat → List (BitVec w) → List (BitVec w) → Option (List (BitVec w))
  | _, [], X => some X
  | i, b :: B, X => do
    let X ← mlaAt udbl X i (A.length + 1) A b
    coreMulLoop udbl A (i + 1) B X

/-- The limbs of the product. -/
def mbedtlsMpiCoreMul (udbl : Bool) (A B : List (BitVec w)) : Option (List (BitVec w)) :=
  coreMulLoop udbl A 0 B (List.replicate (A.length + B.length) 0)

/-! ## Sums and differences -/

theorem toNat_flag (hw : 0 < w) (p : Prop) [Decidable p] :
    (if p then (1 : BitVec w) else 0).toNat = if p then 1 else 0 := by
  have hone : 1 % 2 ^ w = 1 := Nat.mod_eq_of_lt (Nat.one_lt_two_pow (by omega))
  split
  · simpa using hone
  · simp

theorem toNat_add_flags (hw : 0 < w) (p q : Prop) [Decidable p] [Decidable q]
    (h : (if p then 1 else 0) + (if q then 1 else 0) ≤ 1) :
    ((if p then (1 : BitVec w) else 0) + if q then (1 : BitVec w) else 0).toNat =
      (if p then 1 else 0) + if q then 1 else 0 := by
  have hpow : 1 < 2 ^ w := Nat.one_lt_two_pow (by omega)
  rw [BitVec.toNat_add, toNat_flag hw, toNat_flag hw, Nat.mod_eq_of_lt (by omega)]

theorem mbedtlsMpiCoreAdd_eq (hw : 0 < w) {A B : List (BitVec w)} (hlen : A.length = B.length)
    {c : BitVec w} (hc : c.toNat ≤ 1) :
    (mbedtlsMpiCoreAdd c A B).1.length = A.length ∧ (mbedtlsMpiCoreAdd c A B).2.toNat ≤ 1 ∧
      value (mbedtlsMpiCoreAdd c A B).1 +
          2 ^ (w * A.length) * (mbedtlsMpiCoreAdd c A B).2.toNat =
        value A + value B + c.toNat := by
  induction A generalizing B c with
  | nil =>
    obtain rfl := List.eq_nil_of_length_eq_zero hlen.symm
    unfold mbedtlsMpiCoreAdd
    simpa using hc
  | cons a A ih =>
    cases B with
    | nil => simp at hlen
    | cons b B =>
      have hfirst := toNat_add_carry c a
      have hsecond := toNat_add_carry (c + a) b
      have hflags : (if c + a < a then 1 else 0) + (if c + a + b < b then 1 else 0) ≤ 1 := by
        by_cases h : c + a < a
        · rw [if_pos h, Nat.mul_one] at hfirst
          have hnot : ¬ c + a + b < b := by
            intro hlt
            rw [if_pos hlt, Nat.mul_one] at hsecond
            omega
          rw [if_pos h, if_neg hnot]
        · rw [if_neg h]
          split <;> omega
      have hcarry := toNat_add_flags hw _ _ hflags
      obtain ⟨hlength, hle, hvalue⟩ := ih (B := B) (by simpa using hlen) (hcarry ▸ hflags)
      unfold mbedtlsMpiCoreAdd
      simp only [List.length_cons, value_cons]
      refine ⟨congrArg Nat.succ hlength, hle, ?_⟩
      rw [hcarry] at hvalue
      rw [pow_succ_limb]
      generalize hrest : mbedtlsMpiCoreAdd _ A B = rest at hvalue hlength hle
      calc (c + a + b).toNat + 2 ^ w * value rest.1 +
            2 ^ w * 2 ^ (w * A.length) * rest.2.toNat
          = (c + a + b).toNat +
              2 ^ w * (value rest.1 + 2 ^ (w * A.length) * rest.2.toNat) := by ring
        _ = (c + a + b).toNat + 2 ^ w * (value A + value B +
              ((if c + a < a then 1 else 0) + if c + a + b < b then 1 else 0)) := by
            rw [hvalue]
        _ = a.toNat + 2 ^ w * value A + (b.toNat + 2 ^ w * value B) + c.toNat := by
            rw [Nat.mul_add, Nat.mul_add, Nat.mul_add]
            omega

theorem mbedtlsMpiCoreSub_eq (hw : 0 < w) {A B : List (BitVec w)} (hlen : A.length = B.length)
    {c : BitVec w} (hc : c.toNat ≤ 1) :
    (mbedtlsMpiCoreSub c A B).1.length = A.length ∧ (mbedtlsMpiCoreSub c A B).2.toNat ≤ 1 ∧
      value (mbedtlsMpiCoreSub c A B).1 + value B + c.toNat =
        value A + 2 ^ (w * A.length) * (mbedtlsMpiCoreSub c A B).2.toNat := by
  induction A generalizing B c with
  | nil =>
    obtain rfl := List.eq_nil_of_length_eq_zero hlen.symm
    unfold mbedtlsMpiCoreSub
    simpa using hc
  | cons a A ih =>
    cases B with
    | nil => simp at hlen
    | cons b B =>
      have hfirst := toNat_sub_borrow a c
      have hsecond := toNat_sub_borrow (a - c) b
      have hflags : (if a - c < b then 1 else 0) + (if a < c then 1 else 0) ≤ 1 := by
        by_cases h : a < c
        · rw [if_pos h, Nat.mul_one] at hfirst
          have hnot : ¬ a - c < b := by
            rw [BitVec.lt_def] at h ⊢
            omega
          rw [if_pos h, if_neg hnot]
        · rw [if_neg h]
          split <;> omega
      have hcarry := toNat_add_flags hw _ _ hflags
      obtain ⟨hlength, hle, hvalue⟩ := ih (B := B) (by simpa using hlen) (hcarry ▸ hflags)
      unfold mbedtlsMpiCoreSub
      simp only [List.length_cons, value_cons]
      refine ⟨congrArg Nat.succ hlength, hle, ?_⟩
      rw [hcarry] at hvalue
      rw [pow_succ_limb]
      generalize hrest : mbedtlsMpiCoreSub _ A B = rest at hvalue hlength hle
      calc (a - c - b).toNat + 2 ^ w * value rest.1 + (b.toNat + 2 ^ w * value B) + c.toNat
          = (a - c - b).toNat + b.toNat + c.toNat + 2 ^ w * (value rest.1 + value B) := by ring
        _ = a.toNat + 2 ^ w * (value rest.1 + value B +
              ((if a - c < b then 1 else 0) + if a < c then 1 else 0)) := by
            rw [Nat.mul_add _ _ (_ + _), Nat.mul_add _ (if a - c < b then 1 else 0)]
            omega
        _ = a.toNat + 2 ^ w * (value A + 2 ^ (w * A.length) * rest.2.toNat) := by rw [hvalue]
        _ = a.toNat + 2 ^ w * value A + 2 ^ w * 2 ^ (w * A.length) * rest.2.toNat := by ring

theorem mbedtlsMpiCoreSubInt_eq (hw : 0 < w) (A : List (BitVec w)) (c : BitVec w) :
    (mbedtlsMpiCoreSubInt c A).1.length = A.length ∧
      value (mbedtlsMpiCoreSubInt c A).1 + c.toNat =
        value A + 2 ^ (w * A.length) * (mbedtlsMpiCoreSubInt c A).2.toNat ∧
      (c.toNat ≤ 1 → (mbedtlsMpiCoreSubInt c A).2.toNat ≤ 1) := by
  induction A generalizing c with
  | nil =>
    unfold mbedtlsMpiCoreSubInt
    simp
  | cons s A ih =>
    have hborrow := toNat_sub_borrow s c
    have hiff : s - c > s ↔ s < c := by
      rw [gt_iff_lt, BitVec.lt_def, BitVec.lt_def]
      split at hborrow <;> omega
    obtain ⟨hlength, hvalue, hle⟩ := ih (if s - c > s then 1 else 0)
    have hflag := toNat_flag hw (s - c > s)
    rw [hflag] at hvalue hle
    unfold mbedtlsMpiCoreSubInt
    simp only [List.length_cons, value_cons]
    refine ⟨congrArg Nat.succ hlength, ?_, fun _ => hle (by split <;> omega)⟩
    rw [pow_succ_limb]
    generalize mbedtlsMpiCoreSubInt _ A = rest at hvalue hlength hle
    simp only [hiff] at hvalue
    calc (s - c).toNat + 2 ^ w * value rest.1 + c.toNat
        = (s - c).toNat + c.toNat + 2 ^ w * value rest.1 := by ring
      _ = s.toNat + 2 ^ w * (value rest.1 + if s < c then 1 else 0) := by
          rw [Nat.mul_add]
          omega
      _ = s.toNat + 2 ^ w * (value A + 2 ^ (w * A.length) * rest.2.toNat) := by rw [hvalue]
      _ = s.toNat + 2 ^ w * value A + 2 ^ w * 2 ^ (w * A.length) * rest.2.toNat := by ring

/-! ## Products -/

section Products

variable (hw : w = 2 * biH w)

include hw

omit hw in
theorem toNat_add_two_flags {x : BitVec w} (p q : Prop) [Decidable p] [Decidable q]
    (h : x.toNat + (if p then 1 else 0) + (if q then 1 else 0) < 2 ^ w) :
    (x + (if p then 1 else 0) + if q then 1 else 0).toNat =
      x.toNat + (if p then 1 else 0) + if q then 1 else 0 := by
  have hflag : ∀ p [Decidable p], (if p then (1 : BitVec w) else 0).toNat % 2 ^ w =
      (if p then 1 else 0) % 2 ^ w := by
    intro p _
    split <;> simp
  rw [BitVec.toNat_add _ (if q then (1 : BitVec w) else 0), BitVec.toNat_add x, Nat.mod_add_mod,
    Nat.add_mod, hflag, ← Nat.add_mod, Nat.add_right_comm, Nat.add_mod, hflag, ← Nat.add_mod,
    Nat.add_right_comm, Nat.mod_eq_of_lt h]

theorem mulWords_half (s b : BitVec w) :
    (mulWords false s b).1.toNat + 2 ^ w * (mulWords false s b).2.toNat = s.toNat * b.toNat := by
  have hpow := two_pow_eq_biH hw
  have hpos := Nat.two_pow_pos (biH w)
  have hhigh : ∀ x : BitVec w, (x >>> biH w).toNat = x.toNat / 2 ^ biH w := by
    intro x
    rw [BitVec.toNat_ushiftRight, Nat.shiftRight_eq_div_pow]
  have hlow : ∀ x : BitVec w, ((x <<< biH w) >>> biH w).toNat = x.toNat % 2 ^ biH w := by
    intro x
    rw [hhigh, BitVec.toNat_shiftLeft, Nat.shiftLeft_eq, hpow, Nat.mul_mod_mul_right,
      Nat.mul_div_cancel _ hpos]
  have hup : ∀ x : BitVec w, (x <<< biH w).toNat = x.toNat % 2 ^ biH w * 2 ^ biH w := by
    intro x
    rw [BitVec.toNat_shiftLeft, Nat.shiftLeft_eq, hpow, Nat.mul_mod_mul_right]
  have hhalf : ∀ x : BitVec w, x.toNat / 2 ^ biH w < 2 ^ biH w := by
    intro x
    rw [Nat.div_lt_iff_lt_mul hpos, ← hpow]
    exact x.isLt
  have hproduct : ∀ x y : BitVec w, x.toNat < 2 ^ biH w → y.toNat < 2 ^ biH w →
      (x * y).toNat = x.toNat * y.toNat := by
    intro x y hx hy
    rw [BitVec.toNat_mul, Nat.mod_eq_of_lt]
    rw [hpow]
    exact Nat.mul_lt_mul'' hx hy
  have hs := Nat.div_add_mod s.toNat (2 ^ biH w)
  have hb := Nat.div_add_mod b.toNat (2 ^ biH w)
  have hlt : s.toNat * b.toNat < 2 ^ w * 2 ^ w := Nat.mul_lt_mul'' s.isLt b.isLt
  unfold mulWords
  simp only [Bool.false_eq_true, if_false]
  generalize hs0 : (s <<< biH w) >>> biH w = s0
  generalize hb0 : (b <<< biH w) >>> biH w = b0
  generalize hs1 : s >>> biH w = s1
  generalize hb1 : b >>> biH w = b1
  have es0 : s0.toNat = s.toNat % 2 ^ biH w := by rw [← hs0, hlow]
  have eb0 : b0.toNat = b.toNat % 2 ^ biH w := by rw [← hb0, hlow]
  have es1 : s1.toNat = s.toNat / 2 ^ biH w := by rw [← hs1, hhigh]
  have eb1 : b1.toNat = b.toNat / 2 ^ biH w := by rw [← hb1, hhigh]
  have ls0 : s0.toNat < 2 ^ biH w := es0 ▸ Nat.mod_lt _ hpos
  have lb0 : b0.toNat < 2 ^ biH w := eb0 ▸ Nat.mod_lt _ hpos
  have ls1 : s1.toNat < 2 ^ biH w := es1 ▸ hhalf s
  have lb1 : b1.toNat < 2 ^ biH w := eb1 ▸ hhalf b
  have hfour : s.toNat * b.toNat = (s0 * b0).toNat +
      2 ^ biH w * ((s0 * b1).toNat + (s1 * b0).toNat) + 2 ^ w * (s1 * b1).toNat := by
    rw [hproduct _ _ ls0 lb0, hproduct _ _ ls0 lb1, hproduct _ _ ls1 lb0, hproduct _ _ ls1 lb1,
      ← hs, ← hb, ← es0, ← es1, ← eb0, ← eb1, hpow]
    ring
  generalize s0 * b1 = rx at hfour ⊢
  generalize s1 * b0 = ry at hfour ⊢
  generalize s0 * b0 = r0 at hfour ⊢
  generalize s1 * b1 = r1 at hfour ⊢
  have hfirst := toNat_add_carry r0 (rx <<< biH w)
  have hsecond := toNat_add_carry (r0 + rx <<< biH w) (ry <<< biH w)
  have hrx := Nat.div_add_mod rx.toNat (2 ^ biH w)
  have hry := Nat.div_add_mod ry.toNat (2 ^ biH w)
  have hsum : (r0 + rx <<< biH w + ry <<< biH w).toNat + 2 ^ w *
      (r1.toNat + rx.toNat / 2 ^ biH w + ry.toNat / 2 ^ biH w +
        (if r0 + rx <<< biH w < rx <<< biH w then 1 else 0) +
        if r0 + rx <<< biH w + ry <<< biH w < ry <<< biH w then 1 else 0) =
      s.toNat * b.toNat := by
    have hmiddle : 2 ^ biH w * (rx.toNat + ry.toNat) =
        2 ^ w * (rx.toNat / 2 ^ biH w) + rx.toNat % 2 ^ biH w * 2 ^ biH w +
          (2 ^ w * (ry.toNat / 2 ^ biH w) + ry.toNat % 2 ^ biH w * 2 ^ biH w) := by
      calc 2 ^ biH w * (rx.toNat + ry.toNat)
          = 2 ^ biH w * ((2 ^ biH w * (rx.toNat / 2 ^ biH w) + rx.toNat % 2 ^ biH w) +
              (2 ^ biH w * (ry.toNat / 2 ^ biH w) + ry.toNat % 2 ^ biH w)) := by rw [hrx, hry]
        _ = _ := by
            rw [hpow]
            ring
    rw [hup] at hfirst hsecond
    rw [hfour, hmiddle, Nat.mul_add, Nat.mul_add, Nat.mul_add, Nat.mul_add]
    omega
  have hfits : r1.toNat + rx.toNat / 2 ^ biH w + ry.toNat / 2 ^ biH w +
      (if r0 + rx <<< biH w < rx <<< biH w then 1 else 0) +
      (if r0 + rx <<< biH w + ry <<< biH w < ry <<< biH w then 1 else 0) < 2 ^ w := by
    apply Nat.lt_of_mul_lt_mul_left (a := 2 ^ w)
    omega
  have hword : (r1 + rx >>> biH w + ry >>> biH w).toNat =
      r1.toNat + rx.toNat / 2 ^ biH w + ry.toNat / 2 ^ biH w := by
    rw [BitVec.toNat_add, BitVec.toNat_add, Nat.mod_add_mod, hhigh, hhigh,
      Nat.mod_eq_of_lt (by omega)]
  rw [toNat_add_two_flags _ _ (by rwa [hword]), hword]
  exact hsum

theorem mulWords_eq (udbl : Bool) (s b : BitVec w) :
    (mulWords udbl s b).1.toNat + 2 ^ w * (mulWords udbl s b).2.toNat = s.toNat * b.toNat := by
  cases udbl with
  | false => exact mulWords_half hw s b
  | true =>
    have hs := s.isLt
    have hb := b.isLt
    have hproduct : s.toNat * b.toNat < 2 ^ (2 * w) := by
      rw [Nat.two_mul, Nat.pow_add]
      exact Nat.mul_lt_mul'' hs hb
    have hwide : ∀ x : BitVec w, (x.setWidth (2 * w)).toNat = x.toNat := by
      intro x
      rw [BitVec.toNat_setWidth]
      exact Nat.mod_eq_of_lt (Nat.lt_of_lt_of_le x.isLt
        (Nat.pow_le_pow_right (by decide) (by omega)))
    have hhigh : s.toNat * b.toNat / 2 ^ w < 2 ^ w := by
      rw [Nat.div_lt_iff_lt_mul (Nat.two_pow_pos w), ← Nat.pow_add, ← Nat.two_mul]
      exact hproduct
    unfold mulWords
    simp only [if_true, BitVec.toNat_setWidth, BitVec.toNat_ushiftRight, BitVec.toNat_mul, hwide,
      Nat.mod_eq_of_lt hproduct, Nat.shiftRight_eq_div_pow, Nat.mod_eq_of_lt hhigh]
    exact Nat.mod_add_div _ _

theorem muladdc_eq (udbl : Bool) (s b d c : BitVec w) :
    (muladdc udbl s b d c).1.toNat + 2 ^ w * (muladdc udbl s b d c).2.toNat =
      s.toNat * b.toNat + d.toNat + c.toNat := by
  have hproduct := mulWords_eq hw udbl s b
  generalize hr : mulWords udbl s b = r at hproduct
  have hfirst := toNat_add_carry r.1 c
  have hsecond := toNat_add_carry (r.1 + c) d
  have hpos := Nat.two_pow_pos w
  have hmax : s.toNat * b.toNat ≤ (2 ^ w - 1) * (2 ^ w - 1) :=
    Nat.mul_le_mul (Nat.le_sub_one_of_lt s.isLt) (Nat.le_sub_one_of_lt b.isLt)
  have hsum : (r.1 + c + d).toNat + 2 ^ w * (r.2.toNat + (if r.1 + c < c then 1 else 0) +
      if r.1 + c + d < d then 1 else 0) = s.toNat * b.toNat + d.toNat + c.toNat := by
    rw [Nat.mul_add, Nat.mul_add]
    omega
  have hfits : r.2.toNat + (if r.1 + c < c then 1 else 0) +
      (if r.1 + c + d < d then 1 else 0) < 2 ^ w := by
    apply Nat.lt_of_mul_lt_mul_left (a := 2 ^ w)
    have hsquare : (2 ^ w - 1) * (2 ^ w - 1) + 2 * (2 ^ w - 1) < 2 ^ w * 2 ^ w := by
      generalize 2 ^ w = W at hpos
      obtain ⟨V, rfl⟩ : ∃ V, W = V + 1 := ⟨W - 1, by omega⟩
      rw [Nat.add_sub_cancel]
      have hexpand : (V + 1) * (V + 1) = V * V + 2 * V + 1 := by ring
      omega
    omega
  unfold muladdc
  simp only [hr]
  rw [toNat_add_two_flags _ _ hfits]
  exact hsum

theorem mbedtlsMpiCoreMla_eq (hpos : 0 < w) (udbl : Bool) (b : BitVec w) {d s : List (BitVec w)}
    (hlen : s.length ≤ d.length) (c : BitVec w) :
    (mbedtlsMpiCoreMla udbl b c d s).1.length = d.length ∧
      value (mbedtlsMpiCoreMla udbl b c d s).1 +
          2 ^ (w * d.length) * (mbedtlsMpiCoreMla udbl b c d s).2.toNat =
        value d + value s * b.toNat + c.toNat := by
  induction d generalizing s c with
  | nil =>
    obtain rfl := List.eq_nil_of_length_eq_zero (Nat.le_zero.mp hlen)
    unfold mbedtlsMpiCoreMla
    simp
  | cons x d ih =>
    cases s with
    | nil =>
      have hcarry := toNat_add_carry x c
      obtain ⟨hlength, hvalue⟩ := ih (s := []) (Nat.zero_le _) (if x + c < c then 1 else 0)
      rw [toNat_flag hpos] at hvalue
      unfold mbedtlsMpiCoreMla
      simp only [List.length_cons, value_cons]
      refine ⟨congrArg Nat.succ hlength, ?_⟩
      rw [pow_succ_limb]
      generalize mbedtlsMpiCoreMla udbl b _ d [] = rest at hvalue hlength
      calc (x + c).toNat + 2 ^ w * value rest.1 +
            2 ^ w * 2 ^ (w * d.length) * rest.2.toNat
          = (x + c).toNat + 2 ^ w * (value rest.1 + 2 ^ (w * d.length) * rest.2.toNat) := by ring
        _ = (x + c).toNat + 2 ^ w * (if x + c < c then 1 else 0) + 2 ^ w * value d := by
            rw [hvalue, value_nil]
            ring
        _ = x.toNat + 2 ^ w * value d + value [] * b.toNat + c.toNat := by
            rw [hcarry, value_nil]
            ring
    | cons y s =>
      have hword := muladdc_eq hw udbl y b x c
      obtain ⟨hlength, hvalue⟩ := ih (by simpa using hlen) (muladdc udbl y b x c).2
      unfold mbedtlsMpiCoreMla
      simp only [List.length_cons, value_cons]
      refine ⟨congrArg Nat.succ hlength, ?_⟩
      rw [pow_succ_limb]
      generalize mbedtlsMpiCoreMla udbl b _ d s = rest at hvalue hlength
      calc (muladdc udbl y b x c).1.toNat + 2 ^ w * value rest.1 +
            2 ^ w * 2 ^ (w * d.length) * rest.2.toNat
          = (muladdc udbl y b x c).1.toNat +
              2 ^ w * (value rest.1 + 2 ^ (w * d.length) * rest.2.toNat) := by ring
        _ = (muladdc udbl y b x c).1.toNat + 2 ^ w * (muladdc udbl y b x c).2.toNat +
              2 ^ w * (value d + value s * b.toNat) := by
            rw [hvalue]
            ring
        _ = x.toNat + 2 ^ w * value d + (y.toNat + 2 ^ w * value s) * b.toNat + c.toNat := by
            rw [hword]
            ring

theorem mlaAt_eq (hpos : 0 < w) (udbl : Bool) {X s : List (BitVec w)} {i len : Nat} (b : BitVec w)
    (hi : i + len ≤ X.length) (hs : s.length ≤ len)
    (hfit : value (X.drop i) + value s * b.toNat < 2 ^ (w * len)) :
    ∃ Y, mlaAt udbl X i len s b = some Y ∧ Y.length = X.length ∧ Y.take i = X.take i ∧
      value (Y.drop i) = value (X.drop i) + value s * b.toNat := by
  have hwindow : ((X.drop i).take len).length = len := by
    rw [List.length_take, List.length_drop]
    omega
  have hroom : len ≤ (X.drop i).length := by
    rw [List.length_drop]
    omega
  have hsplit := value_take_add_drop (X.drop i) hroom
  obtain ⟨hlength, hvalue⟩ :=
    mbedtlsMpiCoreMla_eq hw hpos udbl b (d := (X.drop i).take len) (s := s) (by rwa [hwindow]) 0
  rw [hwindow] at hlength hvalue
  generalize hrun : mbedtlsMpiCoreMla udbl b 0 ((X.drop i).take len) s = run at hlength hvalue
  -- the number fits into the limbs of the window, so that nothing is carried out of it
  have hcarry : run.2.toNat = 0 := by
    have hzero : (0 : BitVec w).toNat = 0 := by simp
    rw [hzero, Nat.add_zero] at hvalue
    rcases Nat.eq_zero_or_pos run.2.toNat with hzero | hone
    · exact hzero
    · have hmul := Nat.le_mul_of_pos_right (2 ^ (w * len)) hone
      omega
  rw [hcarry, Nat.mul_zero, Nat.add_zero] at hvalue
  have htake : (X.take i).length = i := by
    rw [List.length_take]
    omega
  refine ⟨X.take i ++ run.1 ++ X.drop (i + len), ?_, ?_, ?_, ?_⟩
  · unfold mlaAt
    rw [if_pos hi, hrun]
  · rw [List.length_append, List.length_append, htake, hlength, List.length_drop]
    omega
  · rw [List.append_assoc, List.take_left' htake]
  · rw [List.append_assoc, List.drop_left' htake, value_append, hlength, hvalue, ← hsplit,
      List.drop_drop]
    simp
    ring

theorem coreMulLoop_eq (hpos : 0 < w) (udbl : Bool) (A : List (BitVec w)) {B X : List (BitVec w)}
    {i : Nat} (hlen : i + A.length + B.length ≤ X.length)
    (hX : value (X.drop i) < 2 ^ (w * A.length)) :
    ∃ Y, coreMulLoop udbl A i B X = some Y ∧ Y.length = X.length ∧
      value Y = value X + 2 ^ (w * i) * (value A * value B) := by
  induction B generalizing i X with
  | nil => exact ⟨X, rfl, rfl, by simp⟩
  | cons b B ih =>
    rw [List.length_cons] at hlen
    have hfit : value (X.drop i) + value A * b.toNat < 2 ^ (w * (A.length + 1)) := by
      have hA := value_lt A
      have hb := b.isLt
      have hmul : value A * b.toNat ≤ (2 ^ (w * A.length) - 1) * (2 ^ w - 1) :=
        Nat.mul_le_mul (by omega) (by omega)
      rw [pow_succ_limb]
      generalize 2 ^ (w * A.length) = P at *
      generalize 2 ^ w = W at *
      obtain ⟨Q, rfl⟩ : ∃ Q, P = Q + 1 := ⟨P - 1, by omega⟩
      obtain ⟨V, rfl⟩ : ∃ V, W = V + 1 := ⟨W - 1, by omega⟩
      rw [Nat.add_sub_cancel, Nat.add_sub_cancel] at hmul
      have hexpand : (V + 1) * (Q + 1) = Q * V + V + Q + 1 := by ring
      omega
    obtain ⟨Y, hrun, hlength, htake, hvalue⟩ := mlaAt_eq hw hpos udbl b
      (show i + (A.length + 1) ≤ X.length by omega) (Nat.le_succ _) hfit
    have hnext : value (Y.drop (i + 1)) < 2 ^ (w * A.length) := by
      have hdrop := value_drop (Y.drop i) 1
      rw [List.drop_drop, Nat.mul_one, hvalue] at hdrop
      rw [hdrop, Nat.div_lt_iff_lt_mul (Nat.two_pow_pos w),
        Nat.mul_comm (2 ^ (w * A.length)), ← pow_succ_limb]
      exact hfit
    obtain ⟨Z, hrest, hlengthZ, hvalueZ⟩ := @ih Y (i + 1) (by omega) hnext
    refine ⟨Z, ?_, hlengthZ.trans hlength, ?_⟩
    · unfold coreMulLoop
      rw [hrun]
      exact hrest
    · have hY := value_take_add_drop Y (k := i) (by omega)
      have hXsplit := value_take_add_drop X (k := i) (by omega)
      rw [hvalueZ, ← hY, ← hXsplit, htake, hvalue, value_cons, pow_succ_limb]
      ring

theorem mbedtlsMpiCoreMul_eq (hpos : 0 < w) (udbl : Bool) (A B : List (BitVec w)) :
    ∃ Y, mbedtlsMpiCoreMul udbl A B = some Y ∧ Y.length = A.length + B.length ∧
      value Y = value A * value B := by
  have hzero : value (List.replicate (A.length + B.length) (0 : BitVec w)) = 0 :=
    value_replicate_zero _
  have hlength : (List.replicate (A.length + B.length) (0 : BitVec w)).length =
      A.length + B.length := List.length_replicate
  obtain ⟨Y, hrun, hlen, hvalue⟩ := coreMulLoop_eq hw hpos udbl A (B := B) (i := 0)
    (X := List.replicate (A.length + B.length) 0) (by rw [hlength, Nat.zero_add])
    (by rw [List.drop_zero, hzero]; exact Nat.two_pow_pos _)
  refine ⟨Y, hrun, hlen.trans hlength, ?_⟩
  rw [hvalue, hzero, Nat.mul_zero, Nat.pow_zero, Nat.one_mul, Nat.zero_add]

end Products

end TfPsaCrypto
