import TfPsaCrypto.Builtin.BignumCompare
import TfPsaCrypto.Builtin.BignumCore
import TfPsaCrypto.Builtin.BignumDivisionCorrect

/-!
# Signed bignums on limbs

Addition, subtraction and multiplication of `bignum.c`, on the cells of a memory. Any operands may
be one cell.
-/

namespace TfPsaCrypto.Bignum

open Limbs

variable {w : Nat} {V : Type} [DecidableEq V]

abbrev Memory (V : Type) (w : Nat) := V → MbedtlsMpi w

/-! ## Cells -/

def usedLimbsLoop (p : List (BitVec w)) : Nat → Nat
  | 0 => 0
  | j + 1 => if p.getD j 0 ≠ 0 then j + 1 else usedLimbsLoop p j

def usedLimbs (p : List (BitVec w)) : Nat := usedLimbsLoop p p.length

def grow (X : MbedtlsMpi w) (nblimbs : Nat) : DivM (MbedtlsMpi w) :=
  match mbedtlsMpiGrow X nblimbs with
  | ⟨some e, _⟩ => .error (.mpi e)
  | ⟨none, X⟩ => .ok X

/-- `mbedtls_mpi_copy`, of two numbers that are not one cell. At least one limb is copied. -/
def copyLimbs (X Y : MbedtlsMpi w) : DivM (MbedtlsMpi w) :=
  if Y.n = 0 then
    .ok (if X.n ≠ 0 then { s := 1, p := List.replicate X.n 0 } else X)
  else do
    let i := max 1 (usedLimbs Y.p)
    let X ← (if X.n < i then grow { X with s := Y.s } i
      else .ok { s := Y.s, p := X.p.take i ++ List.replicate (X.n - i) 0 })
    .ok { X with p := Y.p.take i ++ X.p.drop i }

def mbedtlsMpiCopy (mem : Memory V w) (X Y : V) : DivM (Memory V w) :=
  if X = Y then .ok mem
  else do
    let x ← copyLimbs (mem X) (mem Y)
    .ok (Function.update mem X x)

def mpiSintAbs (z : BitVec w) : BitVec w := if 0 ≤ z.toInt then z else 0 - z

def toSign (z : BitVec w) : Int := (z >>> (w - 1)).toNat * -2 + 1

def lset (X : MbedtlsMpi w) (z : BitVec w) : DivM (MbedtlsMpi w) := do
  let X ← grow X 1
  .ok { s := toSign z, p := mpiSintAbs z :: List.replicate (X.n - 1) 0 }

/-- The local number of the functions with a `mbedtls_mpi_sint`. -/
def sintMpi (z : BitVec w) : MbedtlsMpi w := { s := toSign z, p := [mpiSintAbs z] }

/-! ## Comparison -/

/-- The loop of `mbedtls_mpi_cmp_abs` and `mbedtls_mpi_cmp_mpi`, with the two results. -/
def cmpLoop (X Y : List (BitVec w)) (greater less : Int) : Nat → Int
  | 0 => 0
  | i + 1 =>
    if X.getD i 0 > Y.getD i 0 then greater
    else if X.getD i 0 < Y.getD i 0 then less
    else cmpLoop X Y greater less i

def mbedtlsMpiCmpAbs (X Y : MbedtlsMpi w) : Int :=
  let i := usedLimbs X.p
  let j := usedLimbs Y.p
  if i > j then 1
  else if j > i then -1
  else cmpLoop X.p Y.p 1 (-1) i

def mbedtlsMpiCmpMpi (X Y : MbedtlsMpi w) : Int :=
  let i := usedLimbs X.p
  let j := usedLimbs Y.p
  if i = 0 ∧ j = 0 then 0
  else if i > j then X.s
  else if j > i then -Y.s
  else if X.s > 0 ∧ Y.s < 0 then 1
  else if Y.s > 0 ∧ X.s < 0 then -1
  else cmpLoop X.p Y.p X.s (-X.s) i

def mbedtlsMpiCmpInt (X : MbedtlsMpi w) (z : BitVec w) : Int := mbedtlsMpiCmpMpi X (sintMpi z)

/-! ## Addition and subtraction -/

def addCarryLoop : Nat → MbedtlsMpi w → Nat → BitVec w → DivM (MbedtlsMpi w)
  | 0, _, _, _ => .error .fuel
  | fuel + 1, X, j, c =>
    if c = 0 then .ok X
    else do
      let X ← (if j ≥ X.n then grow X (j + 1) else .ok X)
      let t := X.p.getD j 0 + c
      let p ← setLimb X.p j t
      addCarryLoop fuel { X with p := p } (j + 1) (if t < c then 1 else 0)

def mbedtlsMpiAddAbs (mem : Memory V w) (X A B : V) : DivM (Memory V w) := do
  let (A, B) := if X = B then (X, A) else (A, B)
  let mem ← mbedtlsMpiCopy mem X A
  let mem := Function.update mem X { mem X with s := 1 }
  let j := usedLimbs (mem B).p
  if j = 0 then .ok mem
  else do
    let x ← grow (mem X) j
    let mem := Function.update mem X x
    let sum := mbedtlsMpiCoreAdd 0 ((mem X).p.take j) ((mem B).p.take j)
    let x := { mem X with p := sum.1 ++ (mem X).p.drop j }
    let x ← addCarryLoop (x.n + 2) x j sum.2
    .ok (Function.update mem X x)

/-- The high limbs of `X` are set to those of `A`, from the limb `n` on. -/
def matchHighLimbs (mem : Memory V w) (X A : V) (n : Nat) : Memory V w :=
  let mem :=
    if (mem A).n > n ∧ A ≠ X then
      Function.update mem X { mem X with
        p := (mem X).p.take n ++ (mem A).p.drop n ++ (mem X).p.drop (mem A).n }
    else mem
  if (mem X).n > (mem A).n then
    Function.update mem X { mem X with
      p := (mem X).p.take (mem A).n ++ List.replicate ((mem X).n - (mem A).n) 0 }
  else mem

def mbedtlsMpiSubAbs (mem : Memory V w) (X A B : V) : DivM (Memory V w) := do
  let n := usedLimbs (mem B).p
  if n > (mem A).n then .error (.mpi .negativeValue)
  else do
    let x ← grow (mem X) (mem A).n
    -- the lower limbs of `X` may be those of `B`
    let mem := matchHighLimbs (Function.update mem X x) X A n
    let difference := mbedtlsMpiCoreSub 0 ((mem A).p.take n) ((mem B).p.take n)
    let mem := Function.update mem X { mem X with p := difference.1 ++ (mem X).p.drop n }
    if difference.2 ≠ 0 then do
      let rest := mbedtlsMpiCoreSubInt difference.2 ((mem X).p.drop n)
      let mem := Function.update mem X { mem X with p := (mem X).p.take n ++ rest.1 }
      if rest.2 ≠ 0 then .error (.mpi .negativeValue)
      else .ok (Function.update mem X { mem X with s := 1 })
    else .ok (Function.update mem X { mem X with s := 1 })

def setSign (mem : Memory V w) (X : V) (s : Int) : Memory V w :=
  Function.update mem X { mem X with s := s }

def addSubMpi (mem : Memory V w) (X A B : V) (flipB : Int) : DivM (Memory V w) :=
  let s := (mem A).s
  if (mem A).s * (mem B).s * flipB < 0 then
    let cmp := mbedtlsMpiCmpAbs (mem A) (mem B)
    if cmp ≥ 0 then do
      let mem ← mbedtlsMpiSubAbs mem X A B
      .ok (setSign mem X (if cmp = 0 then 1 else s))
    else do
      let mem ← mbedtlsMpiSubAbs mem X B A
      .ok (setSign mem X (-s))
  else do
    let mem ← mbedtlsMpiAddAbs mem X A B
    .ok (setSign mem X s)

def mbedtlsMpiAddMpi (mem : Memory V w) (X A B : V) : DivM (Memory V w) := addSubMpi mem X A B 1

def mbedtlsMpiSubMpi (mem : Memory V w) (X A B : V) : DivM (Memory V w) := addSubMpi mem X A B (-1)

def withLocal (mem : Memory V w) (B : MbedtlsMpi w) : Memory (Option V) w
  | none => B
  | some v => mem v

def mbedtlsMpiAddInt (mem : Memory V w) (X A : V) (b : BitVec w) : DivM (Memory V w) := do
  let mem ← mbedtlsMpiAddMpi (withLocal mem (sintMpi b)) (some X) (some A) none
  .ok fun v => mem (some v)

def mbedtlsMpiSubInt (mem : Memory V w) (X A : V) (b : BitVec w) : DivM (Memory V w) := do
  let mem ← mbedtlsMpiSubMpi (withLocal mem (sintMpi b)) (some X) (some A) none
  .ok fun v => mem (some v)

/-! ## Multiplication -/

/-- An operand that is the result is copied to a local number. -/
def mbedtlsMpiMulMpi (udbl : Bool) (mem : Memory V w) (X A B : V) : DivM (Memory V w) := do
  let a ← (if X = A then copyLimbs .init (mem A) else .ok (mem A))
  let b ← (if X = B then copyLimbs .init (mem B) else .ok (mem B))
  let i := usedLimbs a.p
  let j := usedLimbs b.p
  let x ← grow (mem X) (i + j)
  let x ← lset x 0
  match mbedtlsMpiCoreMul udbl (a.p.take i) (b.p.take j) with
  | none => .error .index
  | some p =>
    let x := { x with p := p ++ x.p.drop (i + j) }
    .ok (Function.update mem X { x with s := if i = 0 ∨ j = 0 then 1 else a.s * b.s })

def mbedtlsMpiMulInt (udbl : Bool) (mem : Memory V w) (X A : V) (b : BitVec w) :
    DivM (Memory V w) := do
  let n := usedLimbs (mem A).p
  if b = 0 ∨ n = 0 then do
    let x ← lset (mem X) 0
    .ok (Function.update mem X x)
  else do
    let x ← grow (mem X) (n + 1)
    let mem := Function.update mem X x
    let mem ← mbedtlsMpiCopy mem X A
    let product := mbedtlsMpiCoreMla udbl (b - 1) 0 (mem X).p ((mem A).p.take n)
    .ok (Function.update mem X { mem X with p := product.1 })

/-! ## Limbs in use -/

variable {p : List (BitVec w)}

theorem value_take_succ (xs : List (BitVec w)) (i : Nat) :
    value (xs.take (i + 1)) = value (xs.take i) + 2 ^ (w * i) * (xs.getD i 0).toNat := by
  have hlimb : (xs.getD i 0).toNat = value xs / 2 ^ (w * i) % 2 ^ w := getD_toNat xs i
  rw [value_take, value_take, hlimb, Nat.mul_succ, Nat.pow_add, Nat.mod_mul]

theorem usedLimbsLoop_le (p : List (BitVec w)) (j : Nat) : usedLimbsLoop p j ≤ j := by
  induction j with
  | zero => exact Nat.le_refl _
  | succ j ih =>
    unfold usedLimbsLoop
    split
    · exact Nat.le_refl _
    · exact Nat.le_succ_of_le ih

theorem usedLimbs_le (p : List (BitVec w)) : usedLimbs p ≤ p.length := usedLimbsLoop_le _ _

theorem value_take_usedLimbsLoop (p : List (BitVec w)) (j : Nat) :
    value (p.take (usedLimbsLoop p j)) = value (p.take j) := by
  induction j with
  | zero => rfl
  | succ j ih =>
    unfold usedLimbsLoop
    split
    · rfl
    · next hzero =>
      have hlimb := not_ne_iff.mp hzero
      rw [ih, value_take_succ p j, hlimb]
      simp

@[simp] theorem value_take_usedLimbs (p : List (BitVec w)) :
    value (p.take (usedLimbs p)) = value p := by
  unfold usedLimbs
  rw [value_take_usedLimbsLoop, List.take_length]

theorem length_take_usedLimbs (p : List (BitVec w)) :
    (p.take (usedLimbs p)).length = usedLimbs p := by
  rw [List.length_take, Nat.min_eq_left (usedLimbs_le p)]

theorem value_lt_usedLimbs (p : List (BitVec w)) : value p < 2 ^ (w * usedLimbs p) := by
  have hlt := value_lt (p.take (usedLimbs p))
  rwa [value_take_usedLimbs, length_take_usedLimbs] at hlt

theorem le_value_usedLimbsLoop {j : Nat} (h : usedLimbsLoop p j ≠ 0) :
    2 ^ (w * (usedLimbsLoop p j - 1)) ≤ value (p.take j) := by
  induction j with
  | zero => exact absurd rfl h
  | succ j ih =>
    unfold usedLimbsLoop at h ⊢
    split
    · next hlimb =>
      have hpos : 1 ≤ (p.getD j 0).toNat := by
        rw [Nat.one_le_iff_ne_zero]
        exact fun hzero => hlimb (BitVec.eq_of_toNat_eq (by simpa using hzero))
      rw [Nat.add_sub_cancel, value_take_succ]
      exact Nat.le_trans (Nat.le_mul_of_pos_right _ hpos) (Nat.le_add_left _ _)
    · next hlimb =>
      rw [if_neg hlimb] at h
      have hle := ih h
      rw [value_take_succ]
      exact Nat.le_trans hle (Nat.le_add_right _ _)

theorem le_value_usedLimbs (h : usedLimbs p ≠ 0) : 2 ^ (w * (usedLimbs p - 1)) ≤ value p := by
  have hle := le_value_usedLimbsLoop h
  rwa [List.take_length] at hle

theorem usedLimbs_eq_zero_iff (p : List (BitVec w)) : usedLimbs p = 0 ↔ value p = 0 := by
  constructor
  · intro h
    have hlt := value_lt_usedLimbs p
    rw [h, Nat.mul_zero, Nat.pow_zero] at hlt
    exact Nat.lt_one_iff.mp hlt
  · intro h
    by_contra hne
    have hle := le_value_usedLimbs hne
    have hpos := Nat.two_pow_pos (w * (usedLimbs p - 1))
    omega

theorem value_take_of_lt {k : Nat} (h : value p < 2 ^ (w * k)) : value (p.take k) = value p := by
  rw [value_take, Nat.mod_eq_of_lt h]

/-! ## Spec of the cells -/

theorem grow_spec (X : MbedtlsMpi w) (k : Nat) :
    (mbedtlsMpiMaxLimbs < k ∧ grow X k = .error (.mpi .allocFailed)) ∨
      (k ≤ mbedtlsMpiMaxLimbs ∧
        grow X k = .ok { X with p := X.p ++ List.replicate (k - X.n) 0 }) := by
  unfold grow mbedtlsMpiGrow
  by_cases hmax : k > mbedtlsMpiMaxLimbs
  · rw [if_pos hmax]
    exact Or.inl ⟨hmax, rfl⟩
  rw [if_neg hmax]
  refine Or.inr ⟨Nat.le_of_not_lt hmax, ?_⟩
  by_cases hn : X.n < k
  · rw [if_pos hn]
    rfl
  · rw [if_neg hn, Nat.sub_eq_zero_of_le (Nat.le_of_not_lt hn)]
    simp [MbedtlsMpi.returns]

structure Grown (X X' : MbedtlsMpi w) (k : Nat) : Prop where
  s : X'.s = X.s
  abs : X'.abs = X.abs
  n : X'.n = max X.n k

theorem grow_yields (X : MbedtlsMpi w) (k : Nat) :
    DivYields (grow X k) fun X' => Grown X X' k ∧ X'.p = X.p ++ List.replicate (k - X.n) 0 := by
  rcases grow_spec X k with ⟨_, hrun⟩ | ⟨_, hrun⟩
  · rw [hrun]
    exact trivial
  rw [hrun]
  refine ⟨⟨rfl, value_append_replicate_zero _ _, ?_⟩, rfl⟩
  show (X.p ++ List.replicate (k - X.p.length) 0).length = max X.p.length k
  rw [List.length_append, List.length_replicate]
  omega

theorem copyLimbs_spec (X Y : MbedtlsMpi w) :
    DivYields (copyLimbs X Y) fun X' =>
      X'.abs = Y.abs ∧ X.n ≤ X'.n ∧ (Y.n ≠ 0 → X'.s = Y.s) := by
  unfold copyLimbs
  split
  · next hY =>
    have hzero : Y.abs = 0 := by
      unfold MbedtlsMpi.abs
      rw [List.eq_nil_of_length_eq_zero hY, value_nil]
    refine ⟨?_, ?_, fun hne => absurd hY hne⟩
    · split
      · rw [hzero]
        exact value_replicate_zero _
      · next hX =>
        unfold MbedtlsMpi.abs at hzero ⊢
        rw [hzero, List.eq_nil_of_length_eq_zero (not_ne_iff.mp hX), value_nil]
    · split
      · exact Nat.le_of_eq List.length_replicate.symm
      · exact Nat.le_refl _
  · next hY =>
    have hused := usedLimbs_le Y.p
    have hone : max 1 (usedLimbs Y.p) ≤ Y.p.length := by
      have : 0 < Y.p.length := Nat.pos_of_ne_zero hY
      omega
    apply DivYields.bind
      (P := fun X' : MbedtlsMpi w => X'.s = Y.s ∧ X'.n = max X.n (max 1 (usedLimbs Y.p)) ∧
        value (X'.p.drop (max 1 (usedLimbs Y.p))) = 0)
    · split
      · next hlt =>
        apply DivYields.mono (grow_yields _ _)
        rintro X' ⟨⟨hs, _, hn⟩, hp⟩
        refine ⟨hs, hn, ?_⟩
        rw [hp, List.drop_append, List.drop_eq_nil_of_le (Nat.le_of_lt hlt), List.nil_append,
          List.drop_replicate]
        exact value_replicate_zero _
      · next hge =>
        have hlen : (X.p.take (max 1 (usedLimbs Y.p))).length = max 1 (usedLimbs Y.p) := by
          rw [List.length_take]
          exact Nat.min_eq_left (Nat.le_of_not_lt hge)
        refine ⟨rfl, ?_, ?_⟩
        · show (X.p.take _ ++ List.replicate _ _).length = _
          rw [List.length_append, hlen, List.length_replicate]
          omega
        · rw [List.drop_append, List.drop_eq_nil_of_le (Nat.le_of_eq hlen), List.nil_append,
            List.drop_replicate]
          exact value_replicate_zero _
    · rintro X' ⟨hs, hn, hdrop⟩
      have htake : (Y.p.take (max 1 (usedLimbs Y.p))).length = max 1 (usedLimbs Y.p) := by
        rw [List.length_take]
        exact Nat.min_eq_left hone
      refine ⟨?_, ?_, fun _ => hs⟩
      · show value (Y.p.take _ ++ X'.p.drop _) = value Y.p
        rw [value_append, hdrop, Nat.mul_zero, Nat.add_zero]
        apply value_take_of_lt
        exact Nat.lt_of_lt_of_le (value_lt_usedLimbs Y.p)
          (Nat.pow_le_pow_right (by decide) (Nat.mul_le_mul_left w (Nat.le_max_right _ _)))
      · show X.n ≤ (Y.p.take _ ++ X'.p.drop _).length
        rw [List.length_append, htake, List.length_drop]
        change X'.p.length = _ at hn
        omega

theorem lset_zero_spec (X : MbedtlsMpi w) :
    DivYields (lset X 0) fun X' => X'.abs = 0 ∧ X'.s = 1 ∧ X'.n = max X.n 1 := by
  apply DivYields.bind (grow_yields X 1)
  rintro X' ⟨⟨_, _, hn⟩, _⟩
  refine ⟨?_, ?_, ?_⟩
  · show value (mpiSintAbs 0 :: List.replicate (X'.n - 1) 0) = 0
    simp [mpiSintAbs]
  · show toSign (0 : BitVec w) = 1
    simp [toSign]
  · show (_ :: List.replicate (X'.n - 1) _).length = _
    rw [List.length_cons, List.length_replicate]
    omega

theorem toNat_signBit (hpos : 0 < w) (z : BitVec w) :
    (z >>> (w - 1)).toNat = if z.toInt < 0 then 1 else 0 := by
  have hhalf : 2 ^ w = 2 * 2 ^ (w - 1) := by
    rw [← Nat.pow_succ', Nat.succ_eq_add_one, Nat.sub_add_cancel hpos]
  rw [BitVec.toNat_ushiftRight, Nat.shiftRight_eq_div_pow]
  split
  · next hneg =>
    have hlarge := BitVec.toInt_neg_iff.mp hneg
    rw [Nat.div_eq_iff (Nat.two_pow_pos _)]
    omega
  · next hneg =>
    apply Nat.div_eq_of_lt
    by_contra hge
    exact hneg (BitVec.toInt_neg_iff.mpr (by omega))

theorem toSign_eq (hpos : 0 < w) (z : BitVec w) : toSign z = if z.toInt < 0 then -1 else 1 := by
  unfold toSign
  rw [toNat_signBit hpos]
  split <;> rfl

theorem toInt_sintMpi (hpos : 0 < w) (z : BitVec w) : (sintMpi z).toInt = z.toInt := by
  have hz := z.isLt
  unfold sintMpi MbedtlsMpi.toInt MbedtlsMpi.abs mpiSintAbs
  simp only [value_cons, value_nil, Nat.mul_zero, Nat.add_zero, toSign_eq hpos]
  by_cases hneg : z.toInt < 0
  · have hlarge := BitVec.toInt_neg_iff.mp hneg
    have hint : z.toInt = (z.toNat : Int) - (2 ^ w : Nat) := by
      rw [BitVec.toInt_eq_toNat_cond, if_neg (by omega)]
    have hzero : (0 : BitVec w).toNat = 0 := BitVec.toNat_zero
    rw [if_pos hneg, if_neg (by omega), BitVec.toNat_sub, hzero, Nat.add_zero,
      Nat.mod_eq_of_lt (by omega), hint]
    push_cast [Nat.le_of_lt hz]
    ring
  · have hsmall : 2 * z.toNat < 2 ^ w := by
      by_contra hge
      exact hneg (BitVec.toInt_neg_iff.mpr (by omega))
    rw [if_neg hneg, if_pos (by omega), BitVec.toInt_eq_toNat_cond, if_pos hsmall]
    simp

theorem sintMpi_signed (hpos : 0 < w) (z : BitVec w) : (sintMpi z).Signed := by
  unfold MbedtlsMpi.Signed
  rw [toInt_sintMpi hpos]
  exact toSign_eq hpos z

/-! ## Comparison of absolute values -/

theorem cmpLoop_eq (X Y : List (BitVec w)) (greater less : Int) (i : Nat) :
    cmpLoop X Y greater less i =
      if value (Y.take i) < value (X.take i) then greater
      else if value (X.take i) < value (Y.take i) then less
      else 0 := by
  induction i with
  | zero =>
    unfold cmpLoop
    simp
  | succ i ih =>
    have hlow : ∀ Z : List (BitVec w), value (Z.take i) < 2 ^ (w * i) := fun Z => by
      rw [value_take]
      exact Nat.mod_lt _ (Nat.two_pow_pos _)
    have hX := hlow X
    have hY := hlow Y
    have hstep : ∀ {x y : Nat}, x < y → 2 ^ (w * i) * x + 2 ^ (w * i) ≤ 2 ^ (w * i) * y :=
      fun h => by
        rw [← Nat.mul_succ]
        exact Nat.mul_le_mul_left _ h
    unfold cmpLoop
    rw [value_take_succ, value_take_succ, ih]
    rcases Nat.lt_trichotomy (X.getD i 0).toNat (Y.getD i 0).toNat with hlt | heq | hgt
    · have hroom := hstep hlt
      rw [if_neg (show ¬ X.getD i 0 > Y.getD i 0 from Nat.lt_asymm hlt),
        if_pos (show X.getD i 0 < Y.getD i 0 from hlt), if_neg (by omega), if_pos (by omega)]
    · have hlimb := BitVec.eq_of_toNat_eq heq
      rw [if_neg (show ¬ X.getD i 0 > Y.getD i 0 by rw [hlimb]; exact Nat.lt_irrefl _),
        if_neg (show ¬ X.getD i 0 < Y.getD i 0 by rw [hlimb]; exact Nat.lt_irrefl _), heq]
      simp only [Nat.add_lt_add_iff_right]
    · have hroom := hstep hgt
      rw [if_pos (show X.getD i 0 > Y.getD i 0 from hgt), if_pos (by omega)]

theorem value_lt_of_usedLimbs_lt {q : List (BitVec w)} (h : usedLimbs p < usedLimbs q) :
    value p < value q := by
  calc value p < 2 ^ (w * usedLimbs p) := value_lt_usedLimbs p
    _ ≤ 2 ^ (w * (usedLimbs q - 1)) :=
        Nat.pow_le_pow_right (by decide) (Nat.mul_le_mul_left w (by omega))
    _ ≤ value q := le_value_usedLimbs (by omega)

theorem mbedtlsMpiCmpAbs_eq (X Y : MbedtlsMpi w) :
    mbedtlsMpiCmpAbs X Y = if Y.abs < X.abs then 1 else if X.abs < Y.abs then -1 else 0 := by
  unfold mbedtlsMpiCmpAbs MbedtlsMpi.abs
  rcases Nat.lt_trichotomy (usedLimbs X.p) (usedLimbs Y.p) with hlt | heq | hgt
  · have hvalue := value_lt_of_usedLimbs_lt hlt
    rw [if_neg (by omega), if_pos hlt, if_neg (by omega), if_pos hvalue]
  · rw [if_neg (by omega), if_neg (by omega), cmpLoop_eq, value_take_usedLimbs, heq,
      value_take_usedLimbs]
  · have hvalue := value_lt_of_usedLimbs_lt hgt
    rw [if_pos hgt, if_pos hvalue]

theorem mbedtlsMpiCmpAbs_nonneg_iff (X Y : MbedtlsMpi w) :
    mbedtlsMpiCmpAbs X Y ≥ 0 ↔ Y.abs ≤ X.abs := by
  rw [mbedtlsMpiCmpAbs_eq]
  split
  · next hgt => exact iff_of_true (by decide) (Nat.le_of_lt hgt)
  · split
    · next hlt => exact iff_of_false (by decide) (Nat.not_le_of_lt hlt)
    · next hnlt => exact iff_of_true (by decide) (Nat.le_of_not_lt hnlt)

theorem mbedtlsMpiCmpAbs_eq_zero_iff (X Y : MbedtlsMpi w) :
    mbedtlsMpiCmpAbs X Y = 0 ↔ X.abs = Y.abs := by
  rw [mbedtlsMpiCmpAbs_eq]
  split
  · next hgt => exact iff_of_false (by decide) (Nat.ne_of_gt hgt)
  · next hngt =>
    split
    · next hlt => exact iff_of_false (by decide) (Nat.ne_of_lt hlt)
    · next hnlt => exact iff_of_true rfl (by omega)

/-! ## Absolute sums -/

variable {X : MbedtlsMpi w}

theorem addCarryLoop_spec (hpos : 0 < w) {fuel : Nat} {j : Nat} {c : BitVec w} (hj : j ≤ X.n)
    (hone : 1 ≤ fuel) (hfuel : c ≠ 0 → X.n - j + 2 ≤ fuel) :
    DivYields (addCarryLoop fuel X j c) fun X' =>
      X'.abs = X.abs + 2 ^ (w * j) * c.toNat ∧ X'.s = X.s := by
  induction fuel generalizing X j c with
  | zero => exact absurd hone (by decide)
  | succ fuel ih =>
    unfold addCarryLoop
    split
    · next hc =>
      subst hc
      refine ⟨?_, rfl⟩
      simp
    · next hc =>
      have hroom := hfuel hc
      -- the limb `j`, which is zero where it is new
      apply DivYields.bind (P := fun X' : MbedtlsMpi w =>
        X'.abs = X.abs ∧ X'.s = X.s ∧ X'.n = max X.n (j + 1) ∧ (X.n ≤ j → X'.p.getD j 0 = 0))
      · split
        · next hge =>
          apply DivYields.mono (grow_yields X (j + 1))
          rintro X' ⟨⟨hs, habs, hn⟩, hp⟩
          refine ⟨habs, hs, hn, fun hle => ?_⟩
          rw [hp, List.getD_eq_getElem?_getD, List.getElem?_append_right hle,
            List.getElem?_replicate]
          split <;> rfl
        · next hlt => exact ⟨rfl, rfl, by omega, fun hle => absurd hle hlt⟩
      · rintro X' ⟨habs, hs, hn, hnew⟩
        have hlen : j < X'.p.length := by
          change X'.p.length = _ at hn
          omega
        have hset := value_set hlen (X'.p.getD j 0 + c)
        have hcarry := toNat_add_carry (X'.p.getD j 0) c
        have hflag := toNat_flag hpos (X'.p.getD j 0 + c < c)
        simp only [setLimb_eq hlen]
        have hn' : ({ X' with p := X'.p.set j (X'.p.getD j 0 + c) } : MbedtlsMpi w).n =
            X'.n := List.length_set
        apply DivYields.mono (ih (by omega) (by omega) (by
          intro hne
          rcases Nat.lt_or_ge j X.n with hlt | hge
          · omega
          · rw [hnew hge] at hne
            simp at hne))
        rintro X'' ⟨habs'', hs''⟩
        refine ⟨?_, hs''.trans hs⟩
        change _ = value (X'.p.set j _) + _ at habs''
        rw [habs'', hflag, ← habs]
        have hzero : (X'.p.getD j 0#w).toNat = (X'.p.getD j 0).toNat := rfl
        rw [hzero] at hset
        have hexp : 2 ^ (w * (j + 1)) = 2 ^ (w * j) * 2 ^ w := by
          rw [Nat.mul_succ, Nat.pow_add]
        have hmul : 2 ^ (w * j) * (X'.p.getD j 0 + c).toNat +
            2 ^ (w * (j + 1)) * (if X'.p.getD j 0 + c < c then 1 else 0) =
              2 ^ (w * j) * (X'.p.getD j 0).toNat + 2 ^ (w * j) * c.toNat := by
          rw [hexp, Nat.mul_assoc, ← Nat.mul_add, hcarry, Nat.mul_add]
        change _ = value X'.p + _
        omega

/-- What an operation leaves: only the cell `X` changes. -/
def Leaves (mem : Memory V w) (X : V) (P : MbedtlsMpi w → Prop) (mem' : Memory V w) : Prop :=
  ∃ x, mem' = Function.update mem X x ∧ P x

theorem mbedtlsMpiCopy_spec (mem : Memory V w) (X Y : V) :
    DivYields (mbedtlsMpiCopy mem X Y) (Leaves mem X fun x =>
      x.abs = (mem Y).abs ∧ (mem X).n ≤ x.n ∧ (X = Y → x = mem X) ∧
        ((mem Y).n ≠ 0 → x.s = (mem Y).s)) := by
  unfold mbedtlsMpiCopy
  split
  · next hXY =>
    subst hXY
    exact ⟨mem X, (Function.update_eq_self X mem).symm, rfl, Nat.le_refl _, fun _ => rfl,
      fun _ => rfl⟩
  · next hXY =>
    apply DivYields.bind (copyLimbs_spec (mem X) (mem Y))
    rintro x ⟨habs, hn, hs⟩
    exact ⟨x, rfl, habs, hn, fun h => absurd h hXY, hs⟩

theorem mbedtlsMpiAddAbs_spec (hpos : 0 < w) (mem : Memory V w) (X A B : V) :
    DivYields (mbedtlsMpiAddAbs mem X A B) (Leaves mem X fun x =>
      x.abs = (mem A).abs + (mem B).abs ∧ x.s = 1) := by
  unfold mbedtlsMpiAddAbs
  -- the operands after the exchange: the second is `X` only where the first is
  obtain ⟨A', B', hswap, hsum, halias⟩ : ∃ A' B',
      (if X = B then (X, A) else (A, B)) = (A', B') ∧
        (mem A').abs + (mem B').abs = (mem A).abs + (mem B).abs ∧ (X = B' → X = A') := by
    split
    · next hXB =>
      subst hXB
      exact ⟨X, A, rfl, Nat.add_comm _ _, fun _ => rfl⟩
    · next hXB => exact ⟨A, B, rfl, rfl, fun h => absurd h hXB⟩
  rw [hswap, ← hsum]
  apply DivYields.bind (mbedtlsMpiCopy_spec mem X A')
  rintro mem1 ⟨x1, rfl, habs1, -, hself, -⟩
  simp only [Function.update_self, Function.update_idem]
  -- the second operand has its value, and at least the limbs in use
  have hB' : ∀ x : MbedtlsMpi w, x.abs = x1.abs →
      (Function.update mem X x B').abs = (mem B').abs := by
    intro x hx
    by_cases hXB : B' = X
    · subst hXB
      have hA' := halias rfl
      rw [Function.update_self, hx, habs1, ← hA']
    · rw [Function.update_of_ne hXB]
  have hB1 := hB' { x1 with s := 1 } rfl
  split
  · next hzero =>
    rw [usedLimbs_eq_zero_iff] at hzero
    have hzero' : (mem B').abs = 0 := hB1.symm.trans hzero
    refine ⟨_, rfl, ?_, rfl⟩
    rw [hzero', Nat.add_zero, ← habs1]
    rfl
  · next hused =>
    generalize hj : usedLimbs (Function.update mem X { x1 with s := 1 } B').p = j at hused ⊢
    apply DivYields.bind (grow_yields { x1 with s := 1 } j)
    rintro x2 ⟨⟨hs2, habs2, hn2⟩, -⟩
    have hB2 := hB' x2 habs2
    have hlt : (mem B').abs < 2 ^ (w * j) := by
      rw [← hB1, ← hj]
      exact value_lt_usedLimbs _
    have hvalueB : value ((Function.update mem X x2 B').p.take j) = (mem B').abs := by
      rw [← hB2] at hlt ⊢
      exact value_take_of_lt hlt
    have hlenX : (x2.p.take j).length = j := by
      change x2.p.length = _ at hn2
      rw [List.length_take]
      omega
    have hlenB : ((Function.update mem X x2 B').p.take j).length = j := by
      by_cases hXB : B' = X
      · subst hXB
        rw [Function.update_self]
        exact hlenX
      · rw [Function.update_of_ne hXB] at hj ⊢
        rw [← hj, length_take_usedLimbs]
    obtain ⟨hlen, -, hvalue⟩ := mbedtlsMpiCoreAdd_eq hpos (hlenX.trans hlenB.symm)
      (c := 0) (by simp)
    rw [hlenX] at hlen hvalue
    rw [hvalueB, show (0 : BitVec w).toNat = 0 from BitVec.toNat_zero, Nat.add_zero] at hvalue
    generalize mbedtlsMpiCoreAdd 0 (x2.p.take j) _ = sum at hlen hvalue ⊢
    have hn3 : ({ x2 with p := sum.1 ++ x2.p.drop j } : MbedtlsMpi w).n = x2.n := by
      show (sum.1 ++ x2.p.drop j).length = x2.p.length
      change x2.p.length = _ at hn2
      rw [List.length_append, hlen, List.length_drop]
      omega
    apply DivYields.bind (addCarryLoop_spec hpos (c := sum.2) (j := j)
      (X := { x2 with p := sum.1 ++ x2.p.drop j }) (by omega) (by omega) (by omega))
    rintro x3 ⟨habs3, hs3⟩
    refine ⟨x3, rfl, ?_, hs3.trans hs2⟩
    have hsplit := value_take_add_drop x2.p (k := j) (by
      change x2.p.length = _ at hn2
      omega)
    have hjoin : ({ x2 with p := sum.1 ++ x2.p.drop j } : MbedtlsMpi w).abs =
        value sum.1 + 2 ^ (w * j) * value (x2.p.drop j) := by
      unfold MbedtlsMpi.abs
      rw [value_append, hlen]
    have habs2' : value x2.p = (mem A').abs := habs2.trans habs1
    rw [habs3, hjoin]
    omega

/-! ## Absolute differences -/

variable {mem : Memory V w} {A : V}

theorem matchHighLimbs_spec {X : V} {n : Nat} (hn : n ≤ (mem A).n) (hA : (mem A).n ≤ (mem X).n) :
    Leaves mem X (fun x => value (x.p.drop n) = value ((mem A).p.drop n) ∧
      x.n = (mem X).n ∧ x.p.take n = (mem X).p.take n) (matchHighLimbs mem X A n) := by
  by_cases hAX : A = X
  · subst hAX
    refine ⟨mem A, ?_, rfl, rfl, rfl⟩
    unfold matchHighLimbs
    simp
  · -- the limbs from `n` to `A.n` are copied where there are any
    obtain ⟨x1, hfirst, htake, hmid, hlen⟩ : ∃ x1 : MbedtlsMpi w,
        (if (mem A).n > n ∧ A ≠ X then
          Function.update mem X { mem X with
            p := (mem X).p.take n ++ (mem A).p.drop n ++ (mem X).p.drop (mem A).n }
        else mem) = Function.update mem X x1 ∧ x1.p.take n = (mem X).p.take n ∧
          (x1.p.take (mem A).n).drop n = (mem A).p.drop n ∧ x1.n = (mem X).n := by
      have hlenT : ((mem X).p.take n).length = n := by
        rw [List.length_take]
        exact Nat.min_eq_left (Nat.le_trans hn hA)
      split
      · refine ⟨_, rfl, ?_, ?_, ?_⟩
        · show ((mem X).p.take n ++ (mem A).p.drop n ++ _).take n = _
          rw [List.append_assoc, List.take_append_of_le_length (Nat.le_of_eq hlenT.symm),
            List.take_of_length_le (Nat.le_of_eq hlenT)]
        · show (((mem X).p.take n ++ (mem A).p.drop n ++ _).take (mem A).n).drop n = _
          have hlenTD : ((mem X).p.take n ++ (mem A).p.drop n).length = (mem A).n := by
            rw [List.length_append, hlenT, List.length_drop]
            exact Nat.add_sub_cancel' hn
          rw [List.take_append_of_le_length (Nat.le_of_eq hlenTD.symm),
            List.take_of_length_le (Nat.le_of_eq hlenTD), List.drop_append,
            List.drop_eq_nil_of_le (Nat.le_of_eq hlenT), hlenT, Nat.sub_self, List.drop_zero,
            List.nil_append]
        · show ((mem X).p.take n ++ (mem A).p.drop n ++ (mem X).p.drop (mem A).n).length = _
          rw [List.length_append, List.length_append, hlenT, List.length_drop, List.length_drop]
          change (mem A).n ≤ (mem X).p.length at hA
          change n ≤ (mem A).p.length at hn
          change n + ((mem A).p.length - n) + ((mem X).p.length - (mem A).p.length) =
            (mem X).p.length
          change (mem A).p.length ≤ _ at hA
          omega
      · next hnone =>
        have heq : (mem A).n = n := by
          by_contra hne
          exact hnone ⟨by omega, hAX⟩
        refine ⟨mem X, (Function.update_eq_self X mem).symm, rfl, ?_, rfl⟩
        rw [heq, List.drop_eq_nil_of_le (by rw [hlenT]), List.drop_eq_nil_of_le (Nat.le_of_eq heq)]
    unfold matchHighLimbs
    rw [hfirst]
    simp only [Function.update_self, Function.update_of_ne hAX]
    split
    · next hmore =>
      have hlenA : (x1.p.take (mem A).n).length = (mem A).n := by
        rw [List.length_take]
        exact Nat.min_eq_left (Nat.le_of_lt hmore)
      refine ⟨_, Function.update_idem _ _ _, ?_, ?_, ?_⟩
      · show value ((x1.p.take (mem A).n ++ List.replicate _ 0).drop n) = _
        rw [List.drop_append_of_le_length (by omega), hmid]
        exact value_append_replicate_zero _ _
      · show (x1.p.take (mem A).n ++ List.replicate _ _).length = _
        rw [List.length_append, hlenA, List.length_replicate]
        omega
      · show (x1.p.take (mem A).n ++ _).take n = _
        rw [List.take_append_of_le_length (by omega), List.take_take, Nat.min_eq_left hn, htake]
    · next hsame =>
      refine ⟨x1, rfl, ?_, hlen, htake⟩
      rw [← hmid, List.take_of_length_le (Nat.le_of_not_lt hsame)]

inductive SubAbsResult (mem : Memory V w) (X A B : V) : DivM (Memory V w) → Prop
  | noRoom (h : mbedtlsMpiMaxLimbs < (mem A).n) :
      SubAbsResult mem X A B (.error (.mpi .allocFailed))
  | negative (h : (mem A).abs < (mem B).abs) :
      SubAbsResult mem X A B (.error (.mpi .negativeValue))
  | ok (x : MbedtlsMpi w) (hle : (mem B).abs ≤ (mem A).abs)
      (hx : x.abs = (mem A).abs - (mem B).abs) (hs : x.s = 1) :
      SubAbsResult mem X A B (.ok (Function.update mem X x))

theorem mbedtlsMpiSubAbs_spec (hpos : 0 < w) (mem : Memory V w) (X A B : V) :
    SubAbsResult mem X A B (mbedtlsMpiSubAbs mem X A B) := by
  unfold mbedtlsMpiSubAbs
  simp only
  generalize hn : usedLimbs (mem B).p = n
  split
  · next hlarge =>
    apply SubAbsResult.negative
    calc (mem A).abs < 2 ^ (w * (mem A).n) := value_lt _
      _ ≤ 2 ^ (w * (n - 1)) := Nat.pow_le_pow_right (by decide) (Nat.mul_le_mul_left w (by omega))
      _ ≤ (mem B).abs := by
          rw [← hn]
          exact le_value_usedLimbs (by omega)
  · next hle =>
    rcases grow_spec (mem X) (mem A).n with ⟨hmax, hrun⟩ | ⟨-, hrun⟩
    · rw [hrun]
      exact .noRoom hmax
    have hgrow := grow_yields (mem X) (mem A).n
    rw [hrun] at hgrow ⊢
    obtain ⟨⟨-, habs1, hn1⟩, -⟩ := hgrow
    generalize ({ mem X with p := (mem X).p ++ List.replicate _ 0 } : MbedtlsMpi w) = x1
      at habs1 hn1 ⊢
    -- a cell has its value still, and no fewer limbs
    have hcell : ∀ v, (Function.update mem X x1 v).abs = (mem v).abs ∧
        (mem v).n ≤ (Function.update mem X x1 v).n := by
      intro v
      by_cases hv : v = X
      · subst hv
        rw [Function.update_self]
        exact ⟨habs1, by omega⟩
      · rw [Function.update_of_ne hv]
        exact ⟨rfl, Nat.le_refl _⟩
    have hroomA : (Function.update mem X x1 A).n ≤ (Function.update mem X x1 X).n := by
      rw [Function.update_self]
      by_cases hAX : A = X
      · rw [hAX, Function.update_self]
      · rw [Function.update_of_ne hAX]
        omega
    obtain ⟨x2, hmatch, hdrop, hlen2, htake⟩ := matchHighLimbs_spec
      (Nat.le_trans (Nat.le_of_not_lt hle) (hcell A).2) hroomA
    rw [Function.update_idem] at hmatch
    rw [Function.update_self] at hlen2 htake
    have hlow : ∀ v, n ≤ (mem v).n →
        value ((Function.update mem X x2 v).p.take n) = (mem v).abs % 2 ^ (w * n) ∧
          ((Function.update mem X x2 v).p.take n).length = n := by
      intro v hnv
      have hv := hcell v
      have htakev : (Function.update mem X x2 v).p.take n =
          (Function.update mem X x1 v).p.take n := by
        by_cases hvX : v = X
        · rw [hvX, Function.update_self, Function.update_self, htake]
        · rw [Function.update_of_ne hvX, Function.update_of_ne hvX]
      rw [htakev, value_take, List.length_take]
      exact ⟨congrArg (· % 2 ^ (w * n)) hv.1, Nat.min_eq_left (Nat.le_trans hnv hv.2)⟩
    obtain ⟨hvalA, hlenA⟩ := hlow A (Nat.le_of_not_lt hle)
    obtain ⟨hvalB, hlenB⟩ := hlow B (hn ▸ usedLimbs_le _)
    have hltB : (mem B).abs < 2 ^ (w * n) := hn ▸ value_lt_usedLimbs _
    rw [Nat.mod_eq_of_lt hltB] at hvalB
    have hhigh : value (x2.p.drop n) = (mem A).abs / 2 ^ (w * n) := by
      rw [hdrop, value_drop]
      exact congrArg (· / 2 ^ (w * n)) (hcell A).1
    obtain ⟨hlenD, hborrow, hvalueD⟩ := mbedtlsMpiCoreSub_eq hpos (hlenA.trans hlenB.symm)
      (c := 0) (by simp)
    rw [hlenA] at hlenD hvalueD
    rw [hvalA, hvalB, show (0 : BitVec w).toNat = 0 from BitVec.toNat_zero, Nat.add_zero] at hvalueD
    have hsplit := Nat.mod_add_div (mem A).abs (2 ^ (w * n))
    show SubAbsResult mem X A B (if _ ≠ 0 then _ else _)
    rw [hmatch]
    simp only [Function.update_self, Function.update_idem]
    generalize mbedtlsMpiCoreSub 0 _ _ = d at hlenD hborrow hvalueD ⊢
    have hltD := value_lt d.1
    rw [hlenD] at hltD
    have hdropD : (d.1 ++ x2.p.drop n).drop n = x2.p.drop n := by
      rw [← hlenD, List.drop_left]
    have htakeD : (d.1 ++ x2.p.drop n).take n = d.1 := by
      rw [← hlenD, List.take_left]
    rw [hdropD, htakeD]
    split
    · next hcarry =>
      have hone : d.2.toNat = 1 := by
        have : d.2.toNat ≠ 0 := fun h => hcarry (BitVec.eq_of_toNat_eq (by simpa using h))
        omega
      obtain ⟨hlenR, hvalueR, hflag⟩ := mbedtlsMpiCoreSubInt_eq hpos (x2.p.drop n) d.2
      have hltR := value_lt (mbedtlsMpiCoreSubInt d.2 (x2.p.drop n)).1
      rw [hlenR] at hltR
      rw [hone, hhigh] at hvalueR
      rw [hone, Nat.mul_one] at hvalueD
      generalize mbedtlsMpiCoreSubInt d.2 (x2.p.drop n) = rest at hvalueR hflag hltR ⊢
      split
      · next hrest =>
        have hrestOne : rest.2.toNat = 1 := by
          have : rest.2.toNat ≠ 0 := fun h =>
            hrest (BitVec.eq_of_toNat_eq (by simpa using h))
          omega
        rw [hrestOne, Nat.mul_one] at hvalueR
        have hzero : (mem A).abs / 2 ^ (w * n) = 0 := by omega
        rw [hzero, Nat.mul_zero, Nat.add_zero] at hsplit
        exact .negative (by omega)
      · next hrest =>
        have hrestZero : rest.2.toNat = 0 := by
          rw [not_ne_iff.mp hrest]
          exact BitVec.toNat_zero
        rw [hrestZero, Nat.mul_zero] at hvalueR
        have hquot : (mem A).abs / 2 ^ (w * n) = value rest.1 + 1 := hvalueR.symm
        have habs : value (d.1 ++ rest.1) + (mem B).abs = (mem A).abs := by
          rw [value_append, hlenD]
          rw [hquot, Nat.mul_add, Nat.mul_one] at hsplit
          omega
        exact .ok _ (by omega) (show value (d.1 ++ rest.1) = _ by omega) rfl
    · next hcarry =>
      have hzero : d.2.toNat = 0 := by
        rw [not_ne_iff.mp hcarry]
        exact BitVec.toNat_zero
      rw [hzero, Nat.mul_zero, Nat.add_zero] at hvalueD
      have habs : value (d.1 ++ x2.p.drop n) + (mem B).abs = (mem A).abs := by
        rw [value_append, hlenD, hhigh]
        omega
      exact .ok _ (by omega) (show value (d.1 ++ x2.p.drop n) = _ by omega) rfl

theorem mbedtlsMpiSubAbs_yields (hpos : 0 < w) (mem : Memory V w) (X A B : V) :
    DivYields (mbedtlsMpiSubAbs mem X A B) (Leaves mem X fun x =>
      (mem B).abs ≤ (mem A).abs ∧ x.abs = (mem A).abs - (mem B).abs ∧ x.s = 1) := by
  have h := mbedtlsMpiSubAbs_spec hpos mem X A B
  generalize mbedtlsMpiSubAbs mem X A B = result at h
  cases h with
  | noRoom _ => exact trivial
  | negative _ => exact trivial
  | ok x hle hx hs => exact ⟨x, rfl, hle, hx, hs⟩

/-! ## Signed operations -/

/-- The cell `X` gets the number `v`, and no other cell changes. Where the operands are valid, a
zero is positive. -/
structure Computes (mem : Memory V w) (X : V) (v : Int) (valid : Prop) (mem' : Memory V w) :
    Prop where
  value : (mem' X).toInt = v
  zero : valid → v = 0 → (mem' X).s = 1
  others : ∀ u, u ≠ X → mem' u = mem u

theorem Computes.of_leaves {mem' : Memory V w} {X : V} {v : Int} {valid : Prop}
    (h : Leaves mem X (fun x => x.toInt = v ∧ (valid → v = 0 → x.s = 1)) mem') :
    Computes mem X v valid mem' := by
  obtain ⟨x, rfl, hvalue, hzero⟩ := h
  refine ⟨?_, ?_, fun u hu => Function.update_of_ne hu _ _⟩
  · rw [Function.update_self, hvalue]
  · rw [Function.update_self]
    exact hzero

def HasSign (X : MbedtlsMpi w) : Prop := X.s = 1 ∨ X.s = -1

theorem s_of_abs_eq_zero (h : X.Signed) (hzero : X.abs = 0) : X.s = 1 := by
  have hint : X.toInt = 0 := by
    unfold MbedtlsMpi.toInt
    rw [hzero]
    simp
  rw [h, hint]
  rfl

theorem HasSign.of_signed (h : X.Signed) : HasSign X := by
  unfold HasSign
  rw [h]
  split
  · exact Or.inr rfl
  · exact Or.inl rfl

theorem HasSign.ne_zero (h : HasSign X) : X.s ≠ 0 := by
  rcases h with h | h <;> rw [h] <;> decide

theorem addSubMpi_spec (hpos : 0 < w) (mem : Memory V w) (X : V) {B : V} {flipB : Int}
    (hA : HasSign (mem A)) (hB : HasSign (mem B)) (hflip : flipB = 1 ∨ flipB = -1) :
    DivYields (addSubMpi mem X A B flipB)
      (Computes mem X ((mem A).toInt + flipB * (mem B).toInt) (mem A).Signed) := by
  have hsame : ¬ (mem A).s * (mem B).s * flipB < 0 → (mem B).s * flipB = (mem A).s := by
    rcases hA with hA | hA <;> rcases hB with hB | hB <;> rcases hflip with rfl | rfl <;>
      rw [hA, hB] <;> decide
  have hopposite : (mem A).s * (mem B).s * flipB < 0 → (mem B).s * flipB = -(mem A).s := by
    rcases hA with hA | hA <;> rcases hB with hB | hB <;> rcases hflip with rfl | rfl <;>
      rw [hA, hB] <;> decide
  have hne := hA.ne_zero
  unfold addSubMpi
  simp only
  split
  · next hneg =>
    have hsum : (mem A).toInt + flipB * (mem B).toInt =
        (mem A).s * ((mem A).abs - (mem B).abs) := by
      unfold MbedtlsMpi.toInt
      linear_combination (mem B).abs * hopposite hneg
    rw [hsum]
    have hzeroIff := mbedtlsMpiCmpAbs_eq_zero_iff (mem A) (mem B)
    have hge := mbedtlsMpiCmpAbs_nonneg_iff (mem A) (mem B)
    generalize mbedtlsMpiCmpAbs (mem A) (mem B) = cmp at hzeroIff hge ⊢
    have hequal : (mem A).s * (((mem A).abs : Int) - (mem B).abs) = 0 →
        (mem A).abs = (mem B).abs := by
      intro hv
      have hdiff := (Int.mul_eq_zero.mp hv).resolve_left hne
      omega
    split
    · apply DivYields.bind (mbedtlsMpiSubAbs_yields hpos mem X A B)
      rintro _ ⟨x, rfl, hle, hx, -⟩
      apply Computes.of_leaves
      unfold setSign
      rw [Function.update_self, Function.update_idem]
      refine ⟨_, rfl, ?_, ?_⟩
      · show (if cmp = 0 then 1 else (mem A).s) * (x.abs : Int) = _
        rw [hx]
        push_cast [hle]
        split
        · next hzero =>
          rw [hzeroIff.mp hzero]
          ring
        · rfl
      · exact fun _ hv => if_pos (hzeroIff.mpr (hequal hv))
    · next hless =>
      apply DivYields.bind (mbedtlsMpiSubAbs_yields hpos mem X B A)
      rintro _ ⟨x, rfl, hle, hx, -⟩
      apply Computes.of_leaves
      unfold setSign
      rw [Function.update_self, Function.update_idem]
      refine ⟨_, rfl, ?_, ?_⟩
      · show -(mem A).s * (x.abs : Int) = _
        rw [hx]
        push_cast [hle]
        ring
      · exact fun _ hv => absurd (hge.mpr (Nat.le_of_eq (hequal hv).symm)) hless
  · next hpositive =>
    have hsum : (mem A).toInt + flipB * (mem B).toInt =
        (mem A).s * ((mem A).abs + (mem B).abs) := by
      unfold MbedtlsMpi.toInt
      linear_combination (mem B).abs * hsame hpositive
    rw [hsum]
    apply DivYields.bind (mbedtlsMpiAddAbs_spec hpos mem X A B)
    rintro _ ⟨x, rfl, hx, -⟩
    apply Computes.of_leaves
    unfold setSign
    rw [Function.update_self, Function.update_idem]
    refine ⟨_, rfl, ?_, ?_⟩
    · show (mem A).s * (x.abs : Int) = _
      rw [hx]
      rfl
    · intro hsigned hv
      have hboth : ((mem A).abs : Int) + (mem B).abs = 0 := (Int.mul_eq_zero.mp hv).resolve_left hne
      have hzero : (mem A).abs = 0 := by omega
      show (mem A).s = 1
      exact s_of_abs_eq_zero hsigned hzero

omit [DecidableEq V] in
theorem withLocal_spec {X : V} {local0 : MbedtlsMpi w} {v : Int} {valid : Prop}
    {f : DivM (Memory (Option V) w)}
    (h : DivYields f (Computes (withLocal mem local0) (some X) v valid)) :
    DivYields (do let mem ← f; .ok fun v => mem (some v)) (Computes mem X v valid) := by
  apply DivYields.bind h
  rintro mem' ⟨hvalue, hzero, hothers⟩
  refine ⟨hvalue, hzero, fun u hu => ?_⟩
  exact hothers (some u) (fun heq => hu (Option.some.inj heq))

theorem mbedtlsMpiAddInt_spec (hpos : 0 < w) (mem : Memory V w) (X : V) (b : BitVec w)
    (hA : HasSign (mem A)) :
    DivYields (mbedtlsMpiAddInt mem X A b)
      (Computes mem X ((mem A).toInt + b.toInt) (mem A).Signed) := by
  have h := addSubMpi_spec hpos (withLocal mem (sintMpi b)) (some X) (A := some A) (B := none) hA
    (.of_signed (sintMpi_signed hpos b)) (Or.inl rfl)
  change DivYields _ (Computes _ _ ((mem A).toInt + 1 * (sintMpi b).toInt) _) at h
  rw [Int.one_mul, toInt_sintMpi hpos] at h
  exact withLocal_spec h

theorem mbedtlsMpiSubInt_spec (hpos : 0 < w) (mem : Memory V w) (X : V) (b : BitVec w)
    (hA : HasSign (mem A)) :
    DivYields (mbedtlsMpiSubInt mem X A b)
      (Computes mem X ((mem A).toInt - b.toInt) (mem A).Signed) := by
  have h := addSubMpi_spec hpos (withLocal mem (sintMpi b)) (some X) (A := some A) (B := none) hA
    (.of_signed (sintMpi_signed hpos b)) (Or.inr rfl)
  change DivYields _ (Computes _ _ ((mem A).toInt + -1 * (sintMpi b).toInt) _) at h
  rw [Int.neg_one_mul, toInt_sintMpi hpos, ← Int.sub_eq_add_neg] at h
  exact withLocal_spec h

/-! ## Products -/

theorem mulOperand_spec (mem : Memory V w) (X A : V) :
    DivYields (if X = A then copyLimbs .init (mem A) else .ok (mem A)) fun a : MbedtlsMpi w =>
      a.abs = (mem A).abs ∧ (a.abs ≠ 0 → a.s = (mem A).s) := by
  split
  · apply DivYields.mono (copyLimbs_spec .init (mem A))
    rintro a ⟨habs, -, hs⟩
    refine ⟨habs, fun hne => hs fun hn => hne ?_⟩
    rw [habs]
    unfold MbedtlsMpi.abs
    rw [List.eq_nil_of_length_eq_zero hn, value_nil]
  · exact ⟨rfl, fun _ => rfl⟩

theorem mbedtlsMpiMulMpi_spec (hw : w = 2 * biH w) (hpos : 0 < w) (udbl : Bool) (mem : Memory V w)
    (X : V) {B : V} (hA : HasSign (mem A)) (hB : HasSign (mem B)) (valid : Prop) :
    DivYields (mbedtlsMpiMulMpi udbl mem X A B)
      (Computes mem X ((mem A).toInt * (mem B).toInt) valid) := by
  apply DivYields.bind (mulOperand_spec mem X A)
  rintro a ⟨habsA, hsA⟩
  apply DivYields.bind (mulOperand_spec mem X B)
  rintro b ⟨habsB, hsB⟩
  apply DivYields.bind (grow_yields (mem X) (usedLimbs a.p + usedLimbs b.p))
  rintro x1 ⟨⟨-, -, hn1⟩, -⟩
  apply DivYields.bind (lset_zero_spec x1)
  rintro x2 ⟨habs2, -, hn2⟩
  obtain ⟨p, hmul, hlen, hvalue⟩ :=
    mbedtlsMpiCoreMul_eq hw hpos udbl (a.p.take (usedLimbs a.p)) (b.p.take (usedLimbs b.p))
  rw [value_take_usedLimbs, value_take_usedLimbs] at hvalue
  rw [hmul]
  have hproduct : value (p ++ x2.p.drop (usedLimbs a.p + usedLimbs b.p)) =
      (mem A).abs * (mem B).abs := by
    have hrest : value (x2.p.drop (usedLimbs a.p + usedLimbs b.p)) = 0 := by
      rw [value_drop]
      unfold MbedtlsMpi.abs at habs2
      rw [habs2, Nat.zero_div]
    rw [value_append, hrest, Nat.mul_zero, Nat.add_zero, hvalue, ← habsA, ← habsB]
    rfl
  have hzero : (usedLimbs a.p = 0 ∨ usedLimbs b.p = 0) ↔ (mem A).abs * (mem B).abs = 0 := by
    rw [usedLimbs_eq_zero_iff, usedLimbs_eq_zero_iff, Nat.mul_eq_zero, ← habsA, ← habsB]
    rfl
  have hint : (mem A).toInt * (mem B).toInt =
      (mem A).s * (mem B).s * (((mem A).abs * (mem B).abs : Nat) : Int) := by
    unfold MbedtlsMpi.toInt
    push_cast
    ring
  apply Computes.of_leaves
  refine ⟨_, rfl, ?_, ?_⟩
  · show (if _ then (1 : Int) else a.s * b.s) * (value (p ++ _) : Int) = _
    rw [hproduct, hint]
    split
    · next h => rw [hzero.mp h]; simp
    · next h =>
      rw [hzero, Nat.mul_eq_zero, not_or] at h
      rw [hsA (habsA ▸ h.1), hsB (habsB ▸ h.2)]
  · intro _ hv
    rw [hint] at hv
    have hzeroInt := (Int.mul_eq_zero.mp hv).resolve_left (Int.mul_ne_zero hA.ne_zero hB.ne_zero)
    exact if_pos (hzero.mpr (by exact_mod_cast hzeroInt))

theorem mbedtlsMpiMulInt_spec (hw : w = 2 * biH w) (hpos : 0 < w) (udbl : Bool) (mem : Memory V w)
    (X : V) (hA : HasSign (mem A)) (b : BitVec w) (valid : Prop) :
    DivYields (mbedtlsMpiMulInt udbl mem X A b)
      (Computes mem X ((mem A).toInt * b.toNat) valid) := by
  unfold mbedtlsMpiMulInt
  simp only
  split
  · next hzero =>
    have hproduct : (mem A).toInt * b.toNat = 0 := by
      rcases hzero with rfl | hused
      · simp
      · have habs : (mem A).abs = 0 := (usedLimbs_eq_zero_iff _).mp hused
        unfold MbedtlsMpi.toInt
        rw [habs]
        simp
    rw [hproduct]
    apply DivYields.bind (lset_zero_spec (mem X))
    rintro x ⟨habs, hs, -⟩
    apply Computes.of_leaves
    refine ⟨x, rfl, ?_, fun _ _ => hs⟩
    unfold MbedtlsMpi.toInt
    rw [habs]
    simp
  · next hne =>
    rw [not_or] at hne
    obtain ⟨hb, hused⟩ := hne
    have hnA : (mem A).n ≠ 0 := by
      have := usedLimbs_le (mem A).p
      change usedLimbs (mem A).p ≤ (mem A).n at this
      omega
    have habsA : value ((mem A).p.take (usedLimbs (mem A).p)) = (mem A).abs :=
      value_take_usedLimbs _
    have hltA : (mem A).abs < 2 ^ (w * usedLimbs (mem A).p) := value_lt_usedLimbs _
    have habsPos : (mem A).abs ≠ 0 := fun h => hused ((usedLimbs_eq_zero_iff _).mpr h)
    generalize usedLimbs (mem A).p = n at habsA hltA ⊢
    apply DivYields.bind (grow_yields (mem X) (n + 1))
    rintro x1 ⟨⟨hs1, habs1, hn1⟩, -⟩
    -- `A` may be `X`, with more limbs
    have hcellA : (Function.update mem X x1 A).abs = (mem A).abs ∧
        (Function.update mem X x1 A).s = (mem A).s ∧ (Function.update mem X x1 A).n ≠ 0 := by
      by_cases hAX : A = X
      · subst hAX
        rw [Function.update_self]
        exact ⟨habs1, hs1, by omega⟩
      · rw [Function.update_of_ne hAX]
        exact ⟨rfl, rfl, hnA⟩
    apply DivYields.bind (mbedtlsMpiCopy_spec (Function.update mem X x1) X A)
    rintro _ ⟨x2, rfl, habs2, hn2, -, hs2⟩
    rw [Function.update_self] at hn2
    rw [hcellA.1] at habs2
    rw [hcellA.2.1] at hs2
    have hs2' := hs2 hcellA.2.2
    simp only [Function.update_self, Function.update_idem]
    have hvalueA : value ((Function.update mem X x2 A).p.take n) = (mem A).abs := by
      have hcell : (Function.update mem X x2 A).abs = (mem A).abs := by
        by_cases hAX : A = X
        · subst hAX
          rw [Function.update_self, habs2]
        · rw [Function.update_of_ne hAX]
      rw [← hcell] at hltA ⊢
      exact value_take_of_lt hltA
    have hlenA : ((Function.update mem X x2 A).p.take n).length ≤ x2.p.length := by
      have := List.length_take_le n (Function.update mem X x2 A).p
      change x1.n ≤ x2.p.length at hn2
      omega
    obtain ⟨-, hvalue⟩ := mbedtlsMpiCoreMla_eq hw hpos udbl (b - 1) hlenA 0
    have hbpos : 1 ≤ b.toNat := by
      rw [Nat.one_le_iff_ne_zero]
      exact fun h => hb (BitVec.eq_of_toNat_eq (by simpa using h))
    have hpred : (b - 1).toNat + 1 = b.toNat := by
      have hone : (1 : BitVec w).toNat = 1 := by
        have := toNat_flag hpos True
        simpa using this
      rw [BitVec.toNat_sub_of_le (by rw [BitVec.le_def, hone]; exact hbpos), hone]
      omega
    have habs2' : value x2.p = (mem A).abs := habs2
    rw [hvalueA, habs2', show (0 : BitVec w).toNat = 0 from BitVec.toNat_zero, Nat.add_zero,
      Nat.add_comm (mem A).abs, ← Nat.mul_succ, Nat.succ_eq_add_one, hpred] at hvalue
    have hfits : (mem A).abs * b.toNat < 2 ^ (w * x2.p.length) := by
      calc (mem A).abs * b.toNat < 2 ^ (w * n) * 2 ^ w :=
            Nat.mul_lt_mul'' hltA b.isLt
        _ = 2 ^ (w * (n + 1)) := by rw [Nat.mul_succ, Nat.pow_add]
        _ ≤ 2 ^ (w * x2.p.length) := by
            apply Nat.pow_le_pow_right (by decide)
            apply Nat.mul_le_mul_left
            change x1.n ≤ x2.p.length at hn2
            omega
    generalize mbedtlsMpiCoreMla udbl (b - 1) 0 x2.p _ = product at hvalue ⊢
    have hcarry : product.2.toNat = 0 := by
      by_contra hcarry
      have := Nat.le_mul_of_pos_right (2 ^ (w * x2.p.length)) (Nat.pos_of_ne_zero hcarry)
      omega
    rw [hcarry, Nat.mul_zero, Nat.add_zero] at hvalue
    apply Computes.of_leaves
    refine ⟨_, rfl, ?_, ?_⟩
    · show x2.s * (value product.1 : Int) = _
      unfold MbedtlsMpi.toInt
      rw [hvalue, hs2']
      push_cast
      ring
    · intro _ hv
      have hfactor := (Int.mul_eq_zero.mp hv).resolve_right (by omega)
      have habsZero := (Int.mul_eq_zero.mp hfactor).resolve_left hA.ne_zero
      exact absurd (by exact_mod_cast habsZero) habsPos

/-- The signed operations are exact, whichever of their operands are one cell. Their values do not
need the sign of a zero; the sign of a zero result needs that of the first operand. -/
theorem signedBignums_exact (hw : w = 2 * biH w) (hpos : 0 < w) (udbl : Bool) {V : Type}
    [DecidableEq V] (mem : Memory V w) (X A B : V) (b : BitVec w)
    (hA : HasSign (mem A)) (hB : HasSign (mem B)) :
    DivYields (mbedtlsMpiAddMpi mem X A B)
        (Computes mem X ((mem A).toInt + (mem B).toInt) (mem A).Signed) ∧
      DivYields (mbedtlsMpiSubMpi mem X A B)
        (Computes mem X ((mem A).toInt - (mem B).toInt) (mem A).Signed) ∧
      DivYields (mbedtlsMpiMulMpi udbl mem X A B)
        (Computes mem X ((mem A).toInt * (mem B).toInt) True) ∧
      DivYields (mbedtlsMpiMulInt udbl mem X A b) (Computes mem X ((mem A).toInt * b.toNat) True) ∧
      DivYields (mbedtlsMpiAddInt mem X A b)
        (Computes mem X ((mem A).toInt + b.toInt) (mem A).Signed) ∧
      DivYields (mbedtlsMpiSubInt mem X A b)
        (Computes mem X ((mem A).toInt - b.toInt) (mem A).Signed) ∧
      DivYields (mbedtlsMpiAddAbs mem X A B) (Computes mem X ((mem A).abs + (mem B).abs) True) ∧
      DivYields (mbedtlsMpiSubAbs mem X A B) (Computes mem X ((mem A).abs - (mem B).abs) True) ∧
      (mbedtlsMpiSubAbs mem X A B = .error (.mpi .negativeValue) → (mem A).abs < (mem B).abs) ∧
      ((mem A).n ≤ mbedtlsMpiMaxLimbs → (mem A).abs < (mem B).abs →
        mbedtlsMpiSubAbs mem X A B = .error (.mpi .negativeValue)) := by
  refine ⟨?_, ?_, mbedtlsMpiMulMpi_spec hw hpos udbl mem X hA hB True,
    mbedtlsMpiMulInt_spec hw hpos udbl mem X hA b True, mbedtlsMpiAddInt_spec hpos mem X b hA,
    mbedtlsMpiSubInt_spec hpos mem X b hA, ?_, ?_, ?_, ?_⟩
  · have h := addSubMpi_spec hpos mem X hA hB (Or.inl rfl)
    rwa [Int.one_mul] at h
  · have h := addSubMpi_spec hpos mem X hA hB (Or.inr rfl)
    rwa [Int.neg_one_mul, ← Int.sub_eq_add_neg] at h
  · apply DivYields.mono (mbedtlsMpiAddAbs_spec hpos mem X A B)
    rintro _ ⟨x, rfl, hx, hs⟩
    refine .of_leaves ⟨x, rfl, ?_, fun _ _ => hs⟩
    unfold MbedtlsMpi.toInt
    rw [hs, hx]
    push_cast
    ring
  · apply DivYields.mono (mbedtlsMpiSubAbs_yields hpos mem X A B)
    rintro _ ⟨x, rfl, hle, hx, hs⟩
    refine .of_leaves ⟨x, rfl, ?_, fun _ _ => hs⟩
    unfold MbedtlsMpi.toInt
    rw [hs, hx]
    push_cast [hle]
    ring
  · intro hrun
    have h := mbedtlsMpiSubAbs_spec hpos mem X A B
    rw [hrun] at h
    cases h
    assumption
  · intro hroom hlt
    have h := mbedtlsMpiSubAbs_spec hpos mem X A B
    generalize mbedtlsMpiSubAbs mem X A B = result at h ⊢
    cases h with
    | noRoom hmax => omega
    | negative _ => rfl
    | ok x hle _ _ => omega

theorem signedBignums_exact_aliased :
    DivYields
      (mbedtlsMpiSubMpi (fun _ : Unit => ({ s := -1, p := [5, 0] } : MbedtlsMpi 64)) () () ())
      (Computes (fun _ : Unit => ({ s := -1, p := [5, 0] } : MbedtlsMpi 64)) () 0
        (MbedtlsMpi.Signed ({ s := -1, p := [5, 0] } : MbedtlsMpi 64))) :=
  (signedBignums_exact (by decide) (by decide) true
    (fun _ : Unit => ({ s := -1, p := [5, 0] } : MbedtlsMpi 64)) () () () 3
    (Or.inr rfl) (Or.inr rfl)).2.1

end TfPsaCrypto.Bignum
