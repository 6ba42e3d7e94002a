import Mathlib.Algebra.BigOperators.Intervals
import Mathlib.Algebra.BigOperators.Ring.Finset
import Mathlib.Algebra.Order.Ring.Abs
import Mathlib.Tactic.Linarith
import Mathlib.Tactic.LinearCombination
import TfPsaCrypto.Builtin.Bignum

/-!
# Comb recoding

How `ecp.c` writes a scalar in the comb method. Column `j` holds the bits `d * j` to
`d * j + d - 1` of the scalar, and recoding keeps the value of each column.
-/

namespace TfPsaCrypto.Ecp

open Limbs

variable {b : Nat}

/-! ## The digits and their loop -/

def mbedtlsMpiGetBit (X : MbedtlsMpi b) (pos : Nat) : Nat :=
  if X.n * b ≤ pos then 0 else (X.p.getD (pos / b) 0 >>> (pos % b)).toNat &&& 1

structure Comb where
  x : Nat → BitVec 8
  c : BitVec 8

def combClassical (d w : Nat) (m : MbedtlsMpi b) (i : Nat) : BitVec 8 :=
  if i < d then
    (List.range w).foldl
      (fun x j => x ||| BitVec.ofNat 8 (mbedtlsMpiGetBit m (i + d * j) <<< j)) 0
  else 0

def combAdded (s : Comb) (i : Nat) : BitVec 8 := s.x i ^^^ s.c

def combAdjust (s : Comb) (i : Nat) : BitVec 8 := s.x (i - 1) * (1 - (combAdded s i &&& 0x01))

def combStep (s : Comb) (i : Nat) : Comb :=
  let cc := s.x i &&& s.c
  let xi := combAdded s i
  -- adjust if needed, avoiding branches
  let adjust := 1 - (xi &&& 0x01)
  let x := Function.update s.x i (xi ^^^ combAdjust s i)
  { x := Function.update x (i - 1) (x (i - 1) ||| adjust <<< 7)
    c := cc ||| (xi &&& combAdjust s i) }

def combRun (d w : Nat) (m : MbedtlsMpi b) (k : Nat) : Comb :=
  (List.range k).foldl (fun s i => combStep s (i + 1)) { x := combClassical d w m, c := 0 }

def ecpCombRecodeCore (d w : Nat) (m : MbedtlsMpi b) : Nat → BitVec 8 := (combRun d w m d).x

/-- The digit without its sign bit, as `ecp_select_comb` reads it. -/
def combDigit (i : BitVec 8) : BitVec 8 := i &&& 0x7F

/-- The sign of a digit, as `ecp_select_comb` reads it. -/
def combSign (i : BitVec 8) : Int := if i >>> 7 = 0 then 1 else -1

/-- The bit `j` of a digit. -/
def combBit (x : BitVec 8) (j : Nat) : Int := (x.getLsbD j).toInt

def combMultiple (d : Nat) (x : BitVec 8) : Int :=
  ∑ j ∈ Finset.range 7, combBit (combDigit x) j * 2 ^ (d * j)

def signedMultiple (d : Nat) (x : BitVec 8) : Int := combSign x * combMultiple d x

/-- Nothing is lost where the pass for `x[i]` joins words by `|` and `^`. -/
structure Comb.NoCollision (s : Comb) (i : Nat) : Prop where
  carries : (s.x i &&& s.c) &&& (combAdded s i &&& combAdjust s i) = 0
  previous : (s.x (i - 1)).getLsbD 7 = false
  current : (s.x i).getLsbD 7 = false
  carry : s.c.getLsbD 7 = false
  next : ((combStep s i).x i).getLsbD 7 = false ∧ (combStep s i).c.getLsbD 7 = false

/-! ## Classical digits -/

theorem mbedtlsMpiGetBit_eq (X : MbedtlsMpi b) (pos : Nat) :
    mbedtlsMpiGetBit X pos = (X.abs.testBit pos).toNat := by
  unfold mbedtlsMpiGetBit
  split
  case isTrue h =>
    have hlt : X.abs < 2 ^ pos := (value_lt X.p).trans_le
      (Nat.pow_le_pow_right (by decide) (by rwa [Nat.mul_comm] at h))
    rw [Nat.testBit_lt_two_pow hlt]
    rfl
  case isFalse h =>
    have hb : 0 < b := Nat.pos_of_ne_zero fun h0 => h (by simp [h0])
    have hi : pos / b < X.p.length := Nat.div_lt_of_lt_mul (by
      rw [Nat.mul_comm]
      exact Nat.lt_of_not_le h)
    have hdrop : X.abs / 2 ^ (b * (pos / b)) =
        2 ^ b * value (X.p.drop (pos / b + 1)) + X.p[pos / b].toNat := by
      rw [MbedtlsMpi.abs, ← value_drop, List.drop_eq_getElem_cons hi, value_cons, Nat.add_comm]
    have hbit : X.abs.testBit pos = X.p[pos / b].toNat.testBit (pos % b) := by
      conv_lhs => rw [← Nat.mod_add_div pos b]
      rw [← Nat.testBit_div_two_pow, hdrop,
        Nat.testBit_two_pow_mul_add _ X.p[pos / b].isLt, if_pos (Nat.mod_lt _ hb)]
    rw [hbit, List.getD_eq_getElem?_getD, List.getElem?_eq_getElem hi,
      Option.getD_some, BitVec.toNat_ushiftRight, Nat.and_one_is_mod,
      Nat.toNat_testBit, Nat.shiftRight_eq_div_pow]

theorem getLsbD_foldl_bits (f : Nat → Bool) (k j : Nat) :
    ((List.range k).foldl
      (fun x j => x ||| BitVec.ofNat 8 ((f j).toNat <<< j)) (0 : BitVec 8)).getLsbD j =
        (decide (j < k) && decide (j < 8) && f j) := by
  induction k with
  | zero => simp
  | succ k ih =>
    rw [List.range_succ, List.foldl_append, List.foldl_cons, List.foldl_nil, BitVec.getLsbD_or,
      ih, BitVec.getLsbD_ofNat, Nat.testBit_shiftLeft]
    rcases Nat.lt_trichotomy j k with hj | rfl | hj
    · simp [hj, Nat.lt_succ_of_lt hj, Nat.not_le_of_lt hj]
    · cases f j <;> simp
    · obtain ⟨n, rfl⟩ := Nat.exists_eq_add_of_lt hj
      cases hf : f k <;> simp [Nat.testBit_succ, Nat.add_assoc]

theorem getLsbD_combClassical (d w : Nat) (m : MbedtlsMpi b) (i j : Nat) :
    (combClassical d w m i).getLsbD j =
      (decide (i < d) && decide (j < w) && decide (j < 8) && m.abs.testBit (i + d * j)) := by
  unfold combClassical
  split
  case isTrue h =>
    simp only [mbedtlsMpiGetBit_eq]
    rw [getLsbD_foldl_bits fun j => m.abs.testBit (i + d * j), decide_eq_true h, Bool.true_and]
  case isFalse h => simp [h]

/-! ## One pass -/

def Below (w : Nat) (x : BitVec 8) : Prop := ∀ j, w ≤ j → x.getLsbD j = false

theorem adjust_eq (x : BitVec 8) : 1 - (x &&& 0x01) = if x.getLsbD 0 then 0 else 1 := by
  revert x
  decide

theorem mul_adjust (p x : BitVec 8) (j : Nat) :
    (p * (1 - (x &&& 0x01))).getLsbD j = (!x.getLsbD 0 && p.getLsbD j) := by
  rw [adjust_eq]
  cases x.getLsbD 0 <;> simp

theorem sign_adjust (x : BitVec 8) (j : Nat) :
    ((1 - (x &&& 0x01)) <<< 7).getLsbD j = (!x.getLsbD 0 && decide (j = 7)) := by
  rw [adjust_eq]
  cases x.getLsbD 0 with
  | false =>
    by_cases hj : j < 8
    · revert j
      decide
    · rw [BitVec.getLsbD_of_ge _ _ (Nat.le_of_not_lt hj)]
      simp [show j ≠ 7 by omega]
  | true => simp

variable {s : Comb} {i j w : Nat}

theorem getLsbD_combAdded :
    (combAdded s i).getLsbD j = ((s.x i).getLsbD j ^^ s.c.getLsbD j) := BitVec.getLsbD_xor

theorem getLsbD_combAdjust :
    (combAdjust s i).getLsbD j =
      (!((s.x i).getLsbD 0 ^^ s.c.getLsbD 0) && (s.x (i - 1)).getLsbD j) := by
  rw [combAdjust, mul_adjust, getLsbD_combAdded]

theorem combStep_c :
    (combStep s i).c.getLsbD j = (((s.x i).getLsbD j && s.c.getLsbD j) ||
      ((combAdded s i).getLsbD j && (combAdjust s i).getLsbD j)) := by
  simp [combStep]

theorem combStep_current :
    ((combStep s (i + 1)).x (i + 1)).getLsbD j =
      ((combAdded s (i + 1)).getLsbD j ^^ (combAdjust s (i + 1)).getLsbD j) := by
  simp [combStep]

theorem combStep_previous :
    ((combStep s (i + 1)).x i).getLsbD j = ((s.x i).getLsbD j ||
      (!((s.x (i + 1)).getLsbD 0 ^^ s.c.getLsbD 0) && decide (j = 7))) := by
  have hx : (combStep s (i + 1)).x i = s.x i ||| (1 - (combAdded s (i + 1) &&& 0x01)) <<< 7 := by
    simp [combStep]
  rw [hx, BitVec.getLsbD_or, sign_adjust, getLsbD_combAdded]

theorem combStep_other {k : Nat} (hk : k ≠ i) (hk' : k ≠ i + 1) :
    (combStep s (i + 1)).x k = s.x k := by
  simp [combStep, hk, hk']

theorem combSign_eq (x : BitVec 8) : combSign x = if x.getLsbD 7 then -1 else 1 := by
  revert x
  decide

theorem combBit_digit (x : BitVec 8) (hj : j < 7) : combBit (combDigit x) j = combBit x j := by
  have hmask : (0x7F : BitVec 8).getLsbD j = true := by
    revert j
    decide
  rw [combBit, combDigit, BitVec.getLsbD_and, hmask, Bool.and_true, combBit]

theorem combStep_column (hprev : (s.x i).getLsbD 7 = false) (hj : j < 7) :
    combSign ((combStep s (i + 1)).x i) * combBit ((combStep s (i + 1)).x i) j +
        2 * (combBit ((combStep s (i + 1)).x (i + 1)) j + 2 * combBit (combStep s (i + 1)).c j) =
      combBit (s.x i) j + 2 * combBit s.c j + 2 * combBit (s.x (i + 1)) j := by
  have hne : decide (j = 7) = false := decide_eq_false (Nat.ne_of_lt hj)
  rw [combSign_eq]
  simp only [combBit, combStep_c, combStep_current, combStep_previous, getLsbD_combAdjust,
    getLsbD_combAdded, Nat.add_sub_cancel, hprev, hne]
  cases (s.x (i + 1)).getLsbD 0 ^^ s.c.getLsbD 0 <;> cases (s.x i).getLsbD j <;>
    cases (s.x (i + 1)).getLsbD j <;> cases s.c.getLsbD j <;> rfl

/-! ## Runs of the loop -/

/-- After `k` passes over the classical digits `y`: the digits before `k` are final, the digit
`k` has its carry but not its sign, and the later ones are untouched. -/
structure Recoded (w : Nat) (y : Nat → BitVec 8) (k : Nat) (s : Comb) : Prop where
  odd : ∀ i ≤ k, (s.x i).getLsbD 0 = true
  digit : ∀ i < k, Below w (combDigit (s.x i))
  current : Below w (s.x k)
  carry : Below w s.c
  rest : ∀ i, k < i → s.x i = y i
  column : ∀ j < 7,
    ∑ i ∈ Finset.range k, 2 ^ i * (combSign (s.x i) * combBit (s.x i) j) +
        2 ^ k * (combBit (s.x k) j + 2 * combBit s.c j) =
      ∑ i ∈ Finset.range (k + 1), 2 ^ i * combBit (y i) j

theorem Recoded.noCollision {y : Nat → BitVec 8} {k : Nat} (hw : w ≤ 7)
    (hy : ∀ i, Below w (y i)) (h : Recoded w y k s) : s.NoCollision (k + 1) := by
  have hnext : (s.x (k + 1)).getLsbD 7 = false := by
    rw [h.rest _ (Nat.lt_succ_self k)]
    exact hy _ 7 hw
  refine
    { carries := ?carries
      previous := h.current 7 hw
      current := hnext
      carry := h.carry 7 hw
      next := ⟨?digit, ?carry'⟩ }
  case carries =>
    ext j hj
    rw [← BitVec.getLsbD_eq_getElem, BitVec.getLsbD_and, BitVec.getLsbD_and, BitVec.getLsbD_and,
      getLsbD_combAdded]
    cases (s.x (k + 1)).getLsbD j <;> cases s.c.getLsbD j <;> simp
  case digit =>
    rw [combStep_current, getLsbD_combAdjust, getLsbD_combAdded, hnext, h.carry 7 hw,
      Nat.add_sub_cancel, h.current 7 hw]
    simp
  case carry' =>
    rw [combStep_c, getLsbD_combAdded, hnext, h.carry 7 hw]
    simp

theorem Recoded.step {y : Nat → BitVec 8} {k : Nat} (hw : w ≤ 7) (hy : ∀ i, Below w (y i))
    (h : Recoded w y k s) : Recoded w y (k + 1) (combStep s (k + 1)) := by
  have hnext : Below w (s.x (k + 1)) := by
    rw [h.rest _ (Nat.lt_succ_self k)]
    exact hy _
  have hkept : ∀ i < k, (combStep s (k + 1)).x i = s.x i := fun i hi =>
    combStep_other (Nat.ne_of_lt hi) (Nat.ne_of_lt (Nat.lt_succ_of_lt hi))
  refine
    { odd := fun i hi => ?odd, digit := fun i hi j hj => ?digit, current := fun j hj => ?current,
      carry := fun j hj => ?carry, rest := fun i hi => ?rest, column := fun j hj => ?column }
  case odd =>
    rcases Nat.lt_trichotomy i k with hik | rfl | hik
    · rw [hkept i hik]
      exact h.odd i (Nat.le_of_lt hik)
    · rw [combStep_previous, h.odd _ (Nat.le_refl _), Bool.true_or]
    · obtain rfl : i = k + 1 := by omega
      rw [combStep_current, getLsbD_combAdjust, getLsbD_combAdded, Nat.add_sub_cancel,
        h.odd k (Nat.le_refl k)]
      simp
  case digit =>
    rcases Nat.lt_succ_iff_lt_or_eq.mp hi with hik | rfl
    · rw [hkept i hik]
      exact h.digit i hik j hj
    · have hmask : j = 7 → (0x7F : BitVec 8).getLsbD j = false := by
        rintro rfl
        rfl
      rw [combDigit, BitVec.getLsbD_and, combStep_previous, h.current j hj, Bool.false_or]
      by_cases h7 : j = 7
      · rw [hmask h7, Bool.and_false]
      · simp [h7]
  case current =>
    rw [combStep_current, getLsbD_combAdjust, getLsbD_combAdded, Nat.add_sub_cancel,
      hnext j hj, h.carry j hj, h.current j hj]
    simp
  case carry =>
    rw [combStep_c, getLsbD_combAdded, hnext j hj, h.carry j hj]
    simp
  case rest =>
    rw [combStep_other (by omega) (by omega), h.rest i (by omega)]
  case column =>
    have hpass := combStep_column (h.current 7 hw) hj
    have hsum := h.column j hj
    rw [Finset.sum_congr rfl fun i hi => by rw [← hkept i (Finset.mem_range.mp hi)]] at hsum
    rw [Finset.sum_range_succ _ (k + 1), ← hsum, Finset.sum_range_succ _ k,
      ← h.rest (k + 1) (Nat.lt_succ_self k)]
    linear_combination (2 : Int) ^ k * hpass

theorem combRun_recoded {d : Nat} {m : MbedtlsMpi b} (hw : 0 < w ∧ w ≤ 7) (hd : 0 < d)
    (hodd : m.abs % 2 = 1) (k : Nat) :
    Recoded w (combClassical d w m) k (combRun d w m k) := by
  have hy : ∀ i, Below w (combClassical d w m i) := by
    intro i j hj
    rw [getLsbD_combClassical, decide_eq_false (Nat.not_lt_of_le hj)]
    simp
  induction k with
  | zero =>
    refine
      { odd := fun i hi => ?odd, digit := fun i hi => absurd hi (Nat.not_lt_zero i),
        current := hy 0, carry := fun j _ => BitVec.getLsbD_zero, rest := fun i _ => rfl,
        column := fun j _ => ?column }
    case odd =>
      obtain rfl : i = 0 := Nat.le_zero.mp hi
      change (combClassical d w m 0).getLsbD 0 = true
      rw [getLsbD_combClassical, Nat.mul_zero, Nat.testBit_zero]
      simp [hd, hw.1, hodd]
    case column =>
      simp [combRun, combBit]
  | succ k ih =>
    rw [combRun, List.range_succ, List.foldl_append, List.foldl_cons, List.foldl_nil]
    exact ih.step hw.2 hy

/-! ## The scalar -/

theorem abs_sum_two_pow_le {f : Nat → Int} (hf : ∀ i, |f i| ≤ 1) (k : Nat) :
    |∑ i ∈ Finset.range k, 2 ^ i * f i| ≤ 2 ^ k - 1 := by
  induction k with
  | zero => simp
  | succ k ih =>
    rw [Finset.sum_range_succ]
    have hterm : |2 ^ k * f k| ≤ 2 ^ k := by
      rw [abs_mul, abs_of_pos (by positivity)]
      exact mul_le_of_le_one_right (by positivity) (hf k)
    have hsum := abs_add_le (∑ i ∈ Finset.range k, 2 ^ i * f i) (2 ^ k * f k)
    rw [pow_succ]
    linarith

theorem sum_digits (n c k : Nat) :
    ∑ j ∈ Finset.range k, c ^ j * (n / c ^ j % c) = n % c ^ k := by
  induction k with
  | zero => simp [Nat.mod_one]
  | succ k ih => rw [Finset.sum_range_succ, ih, Nat.mod_pow_succ]

theorem column_combClassical (d w : Nat) (m : MbedtlsMpi b) (hj : j < 7) :
    ∑ i ∈ Finset.range d, 2 ^ i * combBit (combClassical d w m i) j =
      if j < w then ((m.abs / 2 ^ (d * j) % 2 ^ d : Nat) : Int) else 0 := by
  split
  case isTrue h =>
    rw [← sum_digits, Nat.cast_sum]
    refine Finset.sum_congr rfl fun i hi => ?_
    have hi8 : j < 8 := Nat.lt_succ_of_lt hj
    rw [combBit, getLsbD_combClassical, decide_eq_true (Finset.mem_range.mp hi),
      decide_eq_true h, decide_eq_true hi8, Nat.div_div_eq_div_mul, ← Nat.pow_add,
      Nat.add_comm (d * j), ← Nat.toNat_testBit]
    cases m.abs.testBit (i + d * j) <;> simp
  case isFalse h =>
    refine Finset.sum_eq_zero fun i _ => ?_
    rw [combBit, getLsbD_combClassical, decide_eq_false h]
    simp

section Value

variable {d : Nat} {m : MbedtlsMpi b} (hw : 0 < w ∧ w ≤ 7) (hd : 0 < d) (hodd : m.abs % 2 = 1)
include hw hd hodd

theorem column_recoded (hj : j < 7) :
    combBit (combRun d w m d).c j = 0 ∧
    ∑ i ∈ Finset.range (d + 1),
        2 ^ i * (combSign (ecpCombRecodeCore d w m i) * combBit (ecpCombRecodeCore d w m i) j) =
      ∑ i ∈ Finset.range d, 2 ^ i * combBit (combClassical d w m i) j := by
  have hrun := combRun_recoded hw hd hodd d
  have hbit : ∀ (x : BitVec 8), combBit x j = 0 ∨ combBit x j = 1 := by
    intro x
    rw [combBit]
    cases x.getLsbD j
    · exact .inl rfl
    · exact .inr rfl
  have hsign : combSign ((combRun d w m d).x d) = 1 := by
    rw [combSign_eq, hrun.current 7 hw.2]
    rfl
  have hcolumn := hrun.column j hj
  have hzero : combBit 0 j = 0 := congrArg Bool.toInt BitVec.getLsbD_zero
  rw [Finset.sum_range_succ _ d, combClassical, if_neg (Nat.lt_irrefl d), hzero, mul_zero,
    add_zero] at hcolumn
  have hclassical := abs_le.mp (abs_sum_two_pow_le
    (f := fun i => combBit (combClassical d w m i) j) (fun i => by
      rcases hbit (combClassical d w m i) with h | h <;> simp [h]) d)
  have hsigned := abs_le.mp (abs_sum_two_pow_le
    (f := fun i => combSign ((combRun d w m d).x i) * combBit ((combRun d w m d).x i) j)
    (fun i => by
      rw [combSign_eq]
      rcases hbit ((combRun d w m d).x i) with h | h <;> split <;> simp [h]) d)
  -- both sums stay under `2 ^ d`, too little for a carry
  have hcarry : combBit (combRun d w m d).c j = 0 := by
    rcases hbit (combRun d w m d).c with hc | hc
    · exact hc
    · rw [hc] at hcolumn
      rcases hbit ((combRun d w m d).x d) with hx | hx <;> rw [hx] at hcolumn <;> linarith
  rw [hcarry, mul_zero, add_zero] at hcolumn
  rw [Finset.sum_range_succ _ d]
  exact ⟨hcarry, by rw [← hcolumn, ecpCombRecodeCore, hsign, one_mul]⟩

theorem sum_combMultiple (hlen : mbedtlsMpiBitlen m ≤ w * d) :
    ∑ i ∈ Finset.range (d + 1), 2 ^ i * signedMultiple d (ecpCombRecodeCore d w m i) = m.abs := by
  have hlt : m.abs < (2 ^ d) ^ w := by
    rw [← Nat.pow_mul, ← Nat.size_le, Nat.mul_comm]
    rwa [mbedtlsMpiBitlen_eq] at hlen
  calc ∑ i ∈ Finset.range (d + 1), 2 ^ i * signedMultiple d (ecpCombRecodeCore d w m i)
      = ∑ i ∈ Finset.range (d + 1), ∑ j ∈ Finset.range 7, 2 ^ (d * j) *
          (2 ^ i * (combSign (ecpCombRecodeCore d w m i) *
            combBit (ecpCombRecodeCore d w m i) j)) := by
        refine Finset.sum_congr rfl fun i _ => ?_
        rw [signedMultiple, combMultiple, Finset.mul_sum, Finset.mul_sum]
        refine Finset.sum_congr rfl fun j hj => ?_
        rw [combBit_digit _ (Finset.mem_range.mp hj)]
        ring
    _ = ∑ j ∈ Finset.range 7, 2 ^ (d * j) *
          (if j < w then ((m.abs / 2 ^ (d * j) % 2 ^ d : Nat) : Int) else 0) := by
        rw [Finset.sum_comm]
        refine Finset.sum_congr rfl fun j hj => ?_
        have hj7 := Finset.mem_range.mp hj
        rw [← Finset.mul_sum, (column_recoded hw hd hodd hj7).2, column_combClassical d w m hj7]
    _ = ((∑ j ∈ Finset.range w, (2 ^ d) ^ j * (m.abs / (2 ^ d) ^ j % 2 ^ d) : Nat) : Int) := by
        rw [Nat.cast_sum, ← Finset.sum_subset (Finset.range_subset_range.mpr hw.2)]
        · refine Finset.sum_congr rfl fun j hj => ?_
          rw [if_pos (Finset.mem_range.mp hj), ← Nat.pow_mul]
          push_cast
          ring
        · intro j _ hj
          rw [if_neg fun h => hj (Finset.mem_range.mpr h), mul_zero]
    _ = m.abs := by rw [sum_digits, Nat.mod_eq_of_lt hlt]

end Value

theorem combDigit_odd_lt {x : BitVec 8} (hodd : x.getLsbD 0 = true)
    (hbelow : Below w (combDigit x)) :
    (combDigit x).toNat % 2 = 1 ∧ (combDigit x).toNat < 2 ^ w := by
  have hbit : (combDigit x).getLsbD 0 = true := by
    rw [combDigit, BitVec.getLsbD_and, hodd]
    rfl
  refine ⟨Nat.mod_two_eq_one_iff_testBit_zero.mpr ((BitVec.testBit_toNat _).trans hbit), ?_⟩
  exact Nat.lt_pow_two_of_testBit _ fun j hj => (BitVec.testBit_toNat _).trans (hbelow j hj)

/-- Comb recoding represents the scalar by signed odd digits of `w` bits, and no bit of a digit
is lost in a carry or in a sign on the way. The code reads the absolute value only. -/
theorem ecpCombRecodeCore_represents (d w : Nat) (m : MbedtlsMpi b) (hw : 2 ≤ w ∧ w ≤ 7)
    (hodd : m.abs % 2 = 1) (hlen : mbedtlsMpiBitlen m ≤ w * d) :
    (∀ i ≤ d, (combDigit (ecpCombRecodeCore d w m i)).toNat % 2 = 1 ∧
      (combDigit (ecpCombRecodeCore d w m i)).toNat < 2 ^ w) ∧
    (∀ k < d, (combRun d w m k).NoCollision (k + 1)) ∧ (combRun d w m d).c = 0 ∧
    ∑ i ∈ Finset.range (d + 1), 2 ^ i * signedMultiple d (ecpCombRecodeCore d w m i) = m.abs := by
  have hw' : 0 < w ∧ w ≤ 7 := ⟨by omega, hw.2⟩
  have hd : 0 < d := by
    rcases Nat.eq_zero_or_pos d with rfl | hd
    · rw [mbedtlsMpiBitlen_eq, Nat.mul_zero, Nat.size_le, Nat.pow_zero] at hlen
      omega
    · exact hd
  have hrun := combRun_recoded hw' hd hodd
  refine ⟨fun i hi => combDigit_odd_lt ((hrun d).odd i hi) ?_, fun k _ => ?_, ?_,
    sum_combMultiple hw' hd hodd hlen⟩
  · rcases Nat.lt_or_eq_of_le hi with hlt | rfl
    · exact (hrun d).digit i hlt
    · intro j hj
      rw [combDigit, BitVec.getLsbD_and]
      rw [ecpCombRecodeCore, (hrun i).current j hj, Bool.false_and]
  · refine (hrun k).noCollision hw.2 fun i j hj => ?_
    rw [getLsbD_combClassical, decide_eq_false (Nat.not_lt_of_le hj)]
    simp
  · ext j hj
    rw [← BitVec.getLsbD_eq_getElem, ← BitVec.getLsbD_eq_getElem]
    refine Eq.trans ?_ BitVec.getLsbD_zero.symm
    rcases Nat.lt_or_ge j w with hjw | hjw
    · have hzero := (column_recoded hw' hd hodd (by omega : j < 7)).1
      rw [combBit] at hzero
      cases hbit : (combRun d w m d).c.getLsbD j with
      | false => rfl
      | true => simp [hbit] at hzero
    · exact (hrun d).carry j hjw

theorem ecpCombRecodeCore_represents_43 :
    let m : MbedtlsMpi 8 := { s := 1, p := [43] }
    (∀ i ≤ 2, (combDigit (ecpCombRecodeCore 2 3 m i)).toNat % 2 = 1 ∧
      (combDigit (ecpCombRecodeCore 2 3 m i)).toNat < 2 ^ 3) ∧
    (∀ k < 2, (combRun 2 3 m k).NoCollision (k + 1)) ∧ (combRun 2 3 m 2).c = 0 ∧
    ∑ i ∈ Finset.range 3, 2 ^ i * signedMultiple 2 (ecpCombRecodeCore 2 3 m i) = 43 :=
  ecpCombRecodeCore_represents 2 3 _ (by decide) (by decide)
    (by rw [mbedtlsMpiBitlen_eq, Nat.size_le]; decide)

end TfPsaCrypto.Ecp
