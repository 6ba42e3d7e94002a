import Mathlib.Data.UInt
import TfPsaCrypto.Library.Bytes

/-!
# Constant-time conditions

The conditions of `constant_time_impl.h`, which are words of 64 bits all set or all clear, and the
functions of `constant_time.c` that select bytes with them.
-/

namespace TfPsaCrypto

open Bytes

/-! ## Conditions -/

def ctTrue : UInt64 := 0xFFFFFFFFFFFFFFFF

def ctFalse : UInt64 := 0

def mbedtlsCtBool (x : UInt64) : UInt64 :=
  -- y is negative (i.e., top bit set) iff x is non-zero
  let y := (-x) ||| -(x >>> 1);
  -- extract only the sign bit of y, and set all bits if it is set
  -(y >>> 63)

def mbedtlsCtIf (condition if1 if0 : UInt64) : UInt64 :=
  (condition &&& if1) ||| (~~~condition &&& if0)

def mbedtlsCtUintLt (x y : UInt64) : UInt64 :=
  -- true iff the top bits of the operands differ
  let cond := mbedtlsCtBool ((x ^^^ y) >>> 63)
  let ret := mbedtlsCtIf cond y (x - y)
  mbedtlsCtBool (ret >>> 63)

def mbedtlsCtUintNe (x y : UInt64) : UInt64 := mbedtlsCtBool (x ^^^ y)

def mbedtlsCtUintEq (x y : UInt64) : UInt64 := ~~~mbedtlsCtUintNe x y

def mbedtlsCtUintGt (x y : UInt64) : UInt64 := mbedtlsCtUintLt y x

def mbedtlsCtBoolAnd (x y : UInt64) : UInt64 := x &&& y

def mbedtlsCtBoolOr (x y : UInt64) : UInt64 := x ||| y

def mbedtlsCtBoolNot (x : UInt64) : UInt64 := ~~~x

def mbedtlsCtUintIf (condition : UInt64) (if1 if0 : UInt32) : UInt32 :=
  (mbedtlsCtIf condition if1.toUInt64 if0.toUInt64).toUInt32

def mbedtlsCtUintIfElse0 (condition : UInt64) (if1 : UInt32) : UInt32 :=
  (condition &&& if1.toUInt64).toUInt32

def mbedtlsCtErrorIf (condition : UInt64) (if1 if0 : Int32) : Int32 :=
  -(mbedtlsCtIf condition (-if1).toInt64.toUInt64 (-if0).toInt64.toUInt64).toUInt32.toInt32

def mbedtlsCtErrorIfElse0 (condition : UInt64) (if1 : Int32) : Int32 :=
  -(condition &&& (-if1).toInt64.toUInt64).toUInt32.toInt32

/-! ## Functions on buffers -/

def mbedtlsCtZeroizeIf (condition : UInt64) (buf : ByteString) : ByteString :=
  let mask : UInt32 := (~~~condition).toUInt32
  buf.map fun b => (b.toUInt32 &&& mask).toUInt8

/-- One pass of `mbedtls_ct_memmove_left`: nothing, or one byte to the left and a zero behind. -/
def memmovePass (noOp : UInt64) : ByteString → ByteString
  | [] => []
  | [last] => [(mbedtlsCtUintIfElse0 noOp last.toUInt32).toUInt8]
  | current :: next :: rest =>
    (mbedtlsCtUintIf noOp current.toUInt32 next.toUInt32).toUInt8 ::
      memmovePass noOp (next :: rest)

/-- The passes of `mbedtls_ct_memmove_left` from pass `i` on. -/
def memmoveLoop (total offset : UInt64) : Nat → UInt64 → ByteString → ByteString
  | 0, _, buf => buf
  | n + 1, i, buf =>
    let noOp := mbedtlsCtUintGt (total - offset) i
    memmoveLoop total offset n (i + 1) (memmovePass noOp buf)

def mbedtlsCtMemmoveLeft (buf : ByteString) (offset : UInt64) : ByteString :=
  memmoveLoop (UInt64.ofNat buf.length) offset buf.length 0 buf

/-- The difference that `mbedtls_ct_memcmp` accumulates, folded to an `int`. -/
def mbedtlsCtMemcmp (a b : ByteString) : UInt32 :=
  let diff : UInt32 := (List.zipWith (fun x y => (x ^^^ y).toUInt32) a b).foldl (· ||| ·) 0
  (diff &&& (0xffff : UInt32)) ||| (diff >>> (16 : UInt32))

/-! ## What is selected -/

def ctMask (b : Bool) : UInt64 := if b then ctTrue else ctFalse

theorem neg_shiftRight_63 (x : UInt64) :
    (-x) >>> 63 = if 0 < x.toNat ∧ x.toNat ≤ 2 ^ 63 then 1 else 0 := by
  have hsize : UInt64.size = 2 ^ 64 := rfl
  have hneg := UInt64.toNat_neg x
  rw [hsize] at hneg
  apply UInt64.toNat_inj.mp
  rw [UInt64.toNat_shiftRight, hneg, Nat.shiftRight_eq_div_pow]
  split
  · simp
    omega
  · simp
    omega

theorem mbedtlsCtBool_eq (x : UInt64) : mbedtlsCtBool x = ctMask (x ≠ 0) := by
  have hx := x.toNat_lt
  have hhalf : (x >>> 1).toNat = x.toNat / 2 := by
    rw [UInt64.toNat_shiftRight, Nat.shiftRight_eq_div_pow]
    rfl
  have hor : ∀ y z : UInt64, (y ||| z) >>> 63 = (y >>> 63) ||| (z >>> 63) := by
    intro y z
    apply UInt64.toNat_inj.mp
    exact Nat.shiftRight_or_distrib
  unfold mbedtlsCtBool ctMask
  simp only [hor, neg_shiftRight_63, hhalf]
  by_cases hzero : x = 0
  · subst hzero
    decide
  have hpos : 0 < x.toNat := by
    rw [Nat.pos_iff_ne_zero]
    exact fun h => hzero (UInt64.toNat_inj.mp h)
  by_cases hlow : x.toNat ≤ 2 ^ 63
  · rw [if_pos ⟨hpos, hlow⟩, decide_eq_true hzero]
    split <;> decide
  · rw [if_neg (by omega), if_pos (by omega), decide_eq_true hzero]
    decide

theorem ctMask_inj {a b : Bool} : ctMask a = ctMask b ↔ a = b := by
  revert a b
  decide

theorem ctMask_eq_false {b : Bool} : ctMask b = ctFalse ↔ b = false := by
  revert b
  decide

theorem mbedtlsCtIf_mask (b : Bool) (x y : UInt64) :
    mbedtlsCtIf (ctMask b) x y = if b then x else y := by
  have hall : ctTrue &&& x = x := by
    rw [UInt64.and_comm]
    exact UInt64.and_neg_one
  have hall' : ctTrue &&& y = y := by
    rw [UInt64.and_comm]
    exact UInt64.and_neg_one
  have hnot : ~~~ctTrue = 0 := by decide
  have hnot' : ~~~ctFalse = ctTrue := by decide
  cases b with
  | true =>
    show (ctTrue &&& x) ||| (~~~ctTrue &&& y) = x
    rw [hall, hnot, UInt64.zero_and, UInt64.or_zero]
  | false =>
    show (ctFalse &&& x) ||| (~~~ctFalse &&& y) = y
    rw [hnot', hall']
    show (0 &&& x) ||| y = y
    rw [UInt64.zero_and, UInt64.zero_or]

theorem shiftRight_63 (x : UInt64) : x >>> 63 = if 2 ^ 63 ≤ x.toNat then 1 else 0 := by
  have hx := x.toNat_lt
  apply UInt64.toNat_inj.mp
  rw [UInt64.toNat_shiftRight, Nat.shiftRight_eq_div_pow]
  split
  · simp
    omega
  · simp
    omega

theorem mbedtlsCtUintLt_eq (x y : UInt64) : mbedtlsCtUintLt x y = ctMask (x < y) := by
  have hx := x.toNat_lt
  have hxor : (x ^^^ y) >>> 63 = (x >>> 63) ^^^ (y >>> 63) := by
    apply UInt64.toNat_inj.mp
    exact Nat.shiftRight_xor_distrib
  have hsub : (x - y).toNat =
      (18446744073709551616 - y.toNat + x.toNat) % 18446744073709551616 := UInt64.toNat_sub x y
  have hcond : mbedtlsCtBool ((x ^^^ y) >>> 63) =
      ctMask (decide (2 ^ 63 ≤ x.toNat) != decide (2 ^ 63 ≤ y.toNat)) := by
    rw [mbedtlsCtBool_eq, hxor, shiftRight_63, shiftRight_63]
    by_cases htopx : 2 ^ 63 ≤ x.toNat <;> by_cases htopy : 2 ^ 63 ≤ y.toNat <;>
      simp only [htopx, htopy, if_true, if_false] <;> decide
  have hret : ∀ ret : UInt64, mbedtlsCtBool (ret >>> 63) = ctMask (2 ^ 63 ≤ ret.toNat) := by
    intro ret
    rw [mbedtlsCtBool_eq, shiftRight_63]
    by_cases htop : 2 ^ 63 ≤ ret.toNat <;> simp only [htop, if_true, if_false] <;> decide
  unfold mbedtlsCtUintLt
  simp only
  rw [hcond, mbedtlsCtIf_mask, hret, ctMask_inj, Bool.eq_iff_iff, decide_eq_true_iff,
    decide_eq_true_iff, UInt64.lt_iff_toNat_lt]
  by_cases htopx : 2 ^ 63 ≤ x.toNat <;> by_cases htopy : 2 ^ 63 ≤ y.toNat
  · rw [decide_eq_true htopx, decide_eq_true htopy, if_neg (by decide), hsub]
    omega
  · rw [decide_eq_true htopx, decide_eq_false htopy, if_pos (by decide)]
    omega
  · rw [decide_eq_false htopx, decide_eq_true htopy, if_pos (by decide)]
    omega
  · rw [decide_eq_false htopx, decide_eq_false htopy, if_neg (by decide), hsub]
    omega

theorem mbedtlsCtUintNe_eq (x y : UInt64) : mbedtlsCtUintNe x y = ctMask (x ≠ y) := by
  unfold mbedtlsCtUintNe
  rw [mbedtlsCtBool_eq, ctMask_inj, Bool.eq_iff_iff, decide_eq_true_iff, decide_eq_true_iff, ne_eq,
    UInt64.xor_eq_zero_iff]

@[simp] theorem mbedtlsCtBoolNot_mask (b : Bool) : mbedtlsCtBoolNot (ctMask b) = ctMask !b := by
  revert b
  decide

@[simp] theorem mbedtlsCtBoolOr_mask (a b : Bool) :
    mbedtlsCtBoolOr (ctMask a) (ctMask b) = ctMask (a || b) := by
  revert a b
  decide

@[simp] theorem mbedtlsCtBoolAnd_mask (a b : Bool) :
    mbedtlsCtBoolAnd (ctMask a) (ctMask b) = ctMask (a && b) := by
  revert a b
  decide

theorem mbedtlsCtUintEq_eq (x y : UInt64) : mbedtlsCtUintEq x y = ctMask (x = y) := by
  have hnot := mbedtlsCtBoolNot_mask (x ≠ y)
  unfold mbedtlsCtBoolNot at hnot
  unfold mbedtlsCtUintEq
  rw [mbedtlsCtUintNe_eq, hnot, ctMask_inj, decide_not, Bool.not_not]

@[simp] theorem mbedtlsCtUintIf_mask (b : Bool) (x y : UInt32) :
    mbedtlsCtUintIf (ctMask b) x y = if b then x else y := by
  unfold mbedtlsCtUintIf
  rw [mbedtlsCtIf_mask]
  cases b
  · exact UInt32.toUInt32_toUInt64 y
  · exact UInt32.toUInt32_toUInt64 x

@[simp] theorem mbedtlsCtUintIfElse0_mask (b : Bool) (x : UInt32) :
    mbedtlsCtUintIfElse0 (ctMask b) x = if b then x else 0 := by
  cases b
  · show (0 &&& x.toUInt64).toUInt32 = 0
    rw [UInt64.zero_and]
    rfl
  show (ctTrue &&& x.toUInt64).toUInt32 = x
  rw [UInt64.and_comm]
  show (x.toUInt64 &&& -1).toUInt32 = x
  rw [UInt64.and_neg_one]
  exact UInt32.toUInt32_toUInt64 x

theorem mbedtlsCtZeroizeIf_mask (b : Bool) (buf : ByteString) :
    mbedtlsCtZeroizeIf (ctMask b) buf = if b then List.replicate buf.length 0 else buf := by
  have hfalse : ∀ x : UInt8, (x.toUInt32 &&& (~~~ctFalse).toUInt32).toUInt8 = x := by
    intro x
    show (x.toUInt32 &&& -1).toUInt8 = x
    rw [UInt32.and_neg_one]
    exact UInt8.toUInt8_toUInt32 x
  have htrue : ∀ x : UInt8, (x.toUInt32 &&& (~~~ctTrue).toUInt32).toUInt8 = 0 := by
    intro x
    show (x.toUInt32 &&& 0).toUInt8 = 0
    rw [UInt32.and_zero]
    rfl
  unfold mbedtlsCtZeroizeIf
  induction buf with
  | nil => cases b <;> rfl
  | cons x buf ih =>
    rw [List.map_cons, ih]
    cases b
    · show (x.toUInt32 &&& (~~~ctFalse).toUInt32).toUInt8 :: buf = x :: buf
      rw [hfalse]
    · show (x.toUInt32 &&& (~~~ctTrue).toUInt32).toUInt8 :: List.replicate buf.length 0 =
        0 :: List.replicate buf.length 0
      rw [htrue]

theorem foldl_or_eq_zero {ds : List UInt32} {d : UInt32} :
    ds.foldl (· ||| ·) d = 0 ↔ d = 0 ∧ ∀ e ∈ ds, e = 0 := by
  induction ds generalizing d with
  | nil => simp
  | cons e ds ih => rw [List.foldl_cons, ih, UInt32.or_eq_zero_iff, List.forall_mem_cons, and_assoc]

theorem zipWith_xor_eq_zero {a b : ByteString} (h : a.length = b.length) :
    (∀ e ∈ List.zipWith (fun x y : UInt8 => (x ^^^ y).toUInt32) a b, e = 0) ↔ a = b := by
  induction a generalizing b with
  | nil =>
    rw [List.length_nil] at h
    rw [List.length_eq_zero_iff.mp h.symm]
    simp
  | cons x a ih =>
    rcases b with _ | ⟨y, b⟩
    · cases h
    have hbyte : (x ^^^ y).toUInt32 = 0 ↔ x = y := by
      rw [← UInt8.xor_eq_zero_iff]
      constructor
      · intro hzero
        exact UInt8.toUInt32_inj.mp hzero
      · intro hzero
        rw [hzero]
        rfl
    rw [List.zipWith_cons_cons, List.forall_mem_cons, hbyte, ih (Nat.succ.inj h), List.cons.injEq]

theorem mbedtlsCtMemcmp_eq {a b : ByteString} (h : a.length = b.length) :
    mbedtlsCtBool (mbedtlsCtMemcmp a b).toUInt64 = ctMask (a ≠ b) := by
  have hfold : ∀ d : UInt32, (d &&& (0xffff : UInt32)) ||| (d >>> (16 : UInt32)) = 0 ↔ d = 0 := by
    intro d
    rw [UInt32.or_eq_zero_iff]
    constructor
    · rintro ⟨hlow, hhigh⟩
      have hlow' := congrArg UInt32.toNat hlow
      have hhigh' := congrArg UInt32.toNat hhigh
      rw [UInt32.toNat_and] at hlow'
      rw [UInt32.toNat_shiftRight, Nat.shiftRight_eq_div_pow] at hhigh'
      have hmod : d.toNat % 2 ^ 16 = 0 := by
        rw [← Nat.and_two_pow_sub_one_eq_mod]
        exact hlow'
      have hdiv : d.toNat / 2 ^ 16 = 0 := hhigh'
      apply UInt32.toNat_inj.mp
      show d.toNat = 0
      omega
    · rintro rfl
      decide
  have hzero : (mbedtlsCtMemcmp a b).toUInt64 = 0 ↔ a = b := by
    rw [← zipWith_xor_eq_zero h]
    constructor
    · intro hcmp
      have hcmp' : mbedtlsCtMemcmp a b = 0 := UInt32.toUInt64_inj.mp hcmp
      exact (foldl_or_eq_zero.mp ((hfold _).mp hcmp')).2
    · intro hall
      have hcmp : mbedtlsCtMemcmp a b = 0 := by
        exact (hfold _).mpr (foldl_or_eq_zero.mpr ⟨rfl, hall⟩)
      rw [hcmp]
      rfl
  rw [mbedtlsCtBool_eq, ctMask_inj, Bool.eq_iff_iff, decide_eq_true_iff, decide_eq_true_iff, ne_eq,
    ne_eq, hzero]

theorem memcmp_ne_iff {a b : ByteString} (hlen : a.length = b.length) :
    mbedtlsCtMemcmp a b ≠ 0 ↔ a ≠ b := by
  have hmask := mbedtlsCtMemcmp_eq hlen
  rw [mbedtlsCtBool_eq, ctMask_inj, Bool.eq_iff_iff, decide_eq_true_iff,
    decide_eq_true_iff] at hmask
  rw [← hmask, ne_eq, ne_eq, ← UInt32.toUInt64_inj]
  rfl

/-! ## The data-oblivious move -/

theorem memmovePass_true (buf : ByteString) : memmovePass (ctMask true) buf = buf := by
  induction buf with
  | nil => rfl
  | cons x buf ih =>
    rcases buf with _ | ⟨y, buf⟩
    · unfold memmovePass
      rw [mbedtlsCtUintIfElse0_mask, if_pos rfl, UInt8.toUInt8_toUInt32]
    · unfold memmovePass
      rw [mbedtlsCtUintIf_mask, if_pos rfl, UInt8.toUInt8_toUInt32, ih]

theorem memmovePass_false {x : UInt8} {buf : ByteString} :
    memmovePass (ctMask false) (x :: buf) = buf ++ [0] := by
  induction buf generalizing x with
  | nil =>
    unfold memmovePass
    rw [mbedtlsCtUintIfElse0_mask]
    rfl
  | cons y buf ih =>
    unfold memmovePass
    rw [mbedtlsCtUintIf_mask, if_neg (by decide), UInt8.toUInt8_toUInt32, ih, List.cons_append]

theorem memmoveLoop_shift {total offset : UInt64} {n : Nat} {i : UInt64} {buf : ByteString}
    (hn : i.toNat + n < 2 ^ 64) (hi : (total - offset).toNat ≤ i.toNat) (hbuf : n ≤ buf.length) :
    memmoveLoop total offset n i buf = buf.drop n ++ List.replicate n 0 := by
  induction n generalizing i buf with
  | zero =>
    unfold memmoveLoop
    simp
  | succ n ih =>
    have hnext : (i + 1).toNat = i.toNat + 1 := by
      rw [UInt64.toNat_add]
      show (i.toNat + 1) % 2 ^ 64 = _
      exact Nat.mod_eq_of_lt (by omega)
    have hnoOp : mbedtlsCtUintGt (total - offset) i = ctMask false := by
      unfold mbedtlsCtUintGt
      rw [mbedtlsCtUintLt_eq, ctMask_inj, decide_eq_false_iff_not, UInt64.lt_iff_toNat_lt]
      omega
    rcases buf with _ | ⟨x, buf⟩
    · cases hbuf
    rw [List.length_cons] at hbuf
    rw [memmoveLoop, hnoOp, memmovePass_false, ih (by omega) (by omega)
      (by rw [List.length_append]; omega), List.drop_append_of_le_length (by omega),
      List.drop_succ_cons, List.append_assoc]
    rfl

theorem memmoveLoop_keep {total offset : UInt64} {k n : Nat} {i : UInt64} {buf : ByteString}
    (hn : i.toNat + k < 2 ^ 64) (hi : i.toNat + k ≤ (total - offset).toNat) :
    memmoveLoop total offset (k + n) i buf =
      memmoveLoop total offset n (i + UInt64.ofNat k) buf := by
  induction k generalizing i with
  | zero => simp
  | succ k ih =>
    have hnext : (i + 1).toNat = i.toNat + 1 := by
      rw [UInt64.toNat_add]
      show (i.toNat + 1) % 2 ^ 64 = _
      exact Nat.mod_eq_of_lt (by omega)
    have hnoOp : mbedtlsCtUintGt (total - offset) i = ctMask true := by
      unfold mbedtlsCtUintGt
      rw [mbedtlsCtUintLt_eq, ctMask_inj, decide_eq_true_iff, UInt64.lt_iff_toNat_lt]
      omega
    have hadd : i + 1 + UInt64.ofNat k = i + UInt64.ofNat (k + 1) := by
      rw [UInt64.ofNat_add, add_assoc, add_comm 1]
      rfl
    rw [Nat.succ_add, memmoveLoop, hnoOp, memmovePass_true, ih (by omega) (by omega), hadd]

theorem mbedtlsCtMemmoveLeft_eq {buf : ByteString} {offset : UInt64}
    (hbuf : buf.length < 2 ^ 64) (hoffset : offset.toNat ≤ buf.length) :
    mbedtlsCtMemmoveLeft buf offset = buf.drop offset.toNat ++ List.replicate offset.toNat 0 := by
  have htotal : (UInt64.ofNat buf.length).toNat = buf.length := UInt64.toNat_ofNat_of_lt' hbuf
  have hkeep : (UInt64.ofNat buf.length - offset).toNat = buf.length - offset.toNat := by
    rw [UInt64.toNat_sub_of_le _ _ (by rw [UInt64.le_iff_toNat_le, htotal]; exact hoffset), htotal]
  have hsplit : buf.length = (buf.length - offset.toNat) + offset.toNat := by omega
  have hstart : (UInt64.ofNat (buf.length - offset.toNat)).toNat = buf.length - offset.toNat :=
    UInt64.toNat_ofNat_of_lt' (by omega : buf.length - offset.toNat < 2 ^ 64)
  have hzero : (0 : UInt64).toNat = 0 := rfl
  unfold mbedtlsCtMemmoveLeft
  have hfirst := @memmoveLoop_keep (UInt64.ofNat buf.length) offset (buf.length - offset.toNat)
    offset.toNat 0 buf (by omega) (by omega)
  rw [← hsplit] at hfirst
  rw [hfirst, memmoveLoop_shift _ _ hoffset]
  · rw [UInt64.zero_add, hstart]
    omega
  · rw [UInt64.zero_add, hstart, hkeep]

end TfPsaCrypto
