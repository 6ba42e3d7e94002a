import TfPsaCrypto.Builtin.GenPrime

/-!
# The Miller–Rabin test

A round of `mpi_miller_rabin` accepts exactly the strong bases.
-/

namespace TfPsaCrypto.Prime

open Bytes Limbs
open Bignum (RandomError)
open Ecp (Rng)
open RsaPrivate (mbedtlsMpiMaxBits)

variable {σ ε : Type}

/-! ## Strong bases -/

variable {p : Nat}

/-- `a` does not witness that `x` is composite, for `x - 1 = d * 2 ^ s`. -/
def IsStrongBase (x : Int) (d s : Nat) (a : Int) : Prop :=
  a ^ d % x = 1 ∨ ∃ i < s, a ^ (d * 2 ^ i) % x = x - 1

instance (x : Int) (d s : Nat) (a : Int) : Decidable (IsStrongBase x d s a) :=
  inferInstanceAs (Decidable (_ ∨ ∃ i < s, _))

theorem emod_eq_one_of_modEq {x y : Int} (hx : 1 < x) (h : y ≡ 1 [ZMOD x]) : y % x = 1 := by
  rw [h, Int.emod_eq_of_lt (by decide) hx]

theorem emod_eq_sub_one_of_modEq {x y : Int} (hx : 1 < x) (h : y ≡ -1 [ZMOD x]) :
    y % x = x - 1 := by
  have hmod : (-1 : Int) ≡ x - 1 [ZMOD x] := by
    rw [Int.modEq_iff_dvd]
    exact ⟨1, by ring⟩
  rw [h, hmod, Int.emod_eq_of_lt (by omega) (by omega)]

theorem modEq_one_or_neg_one (hp : p.Prime) {y : Int} (h : y * y ≡ 1 [ZMOD p]) :
    y ≡ 1 [ZMOD p] ∨ y ≡ -1 [ZMOD p] := by
  have hdvd : (p : Int) ∣ (y - 1) * (y + 1) := by
    have hsub := h.symm.dvd
    rwa [show y * y - 1 = (y - 1) * (y + 1) by ring] at hsub
  rcases (Nat.prime_iff_prime_int.mp hp).dvd_or_dvd hdvd with hone | hneg
  · exact .inl (Int.modEq_iff_dvd.mpr hone).symm
  · refine .inr (Int.modEq_iff_dvd.mpr ?_).symm
    rwa [sub_neg_eq_add]

theorem isStrongBase_of_pow (hp : p.Prime) {a : Int} {d : Nat} (s : Nat)
    (h : a ^ (d * 2 ^ s) ≡ 1 [ZMOD p]) : IsStrongBase p d s a := by
  have hx : (1 : Int) < p := by exact_mod_cast hp.one_lt
  induction s with
  | zero =>
    rw [Nat.pow_zero, Nat.mul_one] at h
    exact .inl (emod_eq_one_of_modEq hx h)
  | succ s ih =>
    have hsquare : a ^ (d * 2 ^ s) * a ^ (d * 2 ^ s) ≡ 1 [ZMOD p] := by
      rwa [← pow_add, show d * 2 ^ s + d * 2 ^ s = d * 2 ^ (s + 1) by ring]
    rcases modEq_one_or_neg_one hp hsquare with hone | hneg
    · rcases ih hone with hfirst | ⟨i, hi, heq⟩
      · exact .inl hfirst
      · exact .inr ⟨i, by omega, heq⟩
    · exact .inr ⟨s, Nat.lt_succ_self s, emod_eq_sub_one_of_modEq hx hneg⟩

theorem isStrongBase_of_prime {d s : Nat} (hp : p.Prime) (hds : d * 2 ^ s = p - 1) {a : Int}
    (hlow : 1 < a) (hhigh : a < p - 1) :
    IsStrongBase p d s a := by
  apply isStrongBase_of_pow hp
  rw [hds]
  apply Int.ModEq.pow_card_sub_one_eq_one hp
  rw [Int.isCoprime_iff_gcd_eq_one, Int.gcd_comm]
  rw [← Int.isCoprime_iff_gcd_eq_one, Prime.coprime_iff_not_dvd (Nat.prime_iff_prime_int.mp hp)]
  intro hdvd
  have hle := Int.le_of_dvd (by omega) hdvd
  omega

/-! ## Squarings -/

variable {A : MpiNum}

theorem square_emod_pow (x a : Int) (i : Nat) :
    (a * a % x) ^ 2 ^ i % x = a ^ 2 ^ (i + 1) % x := by
  have hmod : (a * a % x) ^ 2 ^ i ≡ (a * a) ^ 2 ^ i [ZMOD x] := (Int.mod_modEq _ _).pow _
  rw [hmod, ← pow_two, ← pow_mul, ← pow_succ']

structure HalfSmall (w : Nat) (X : MpiNum) : Prop where
  small : X.Small w
  half : limbCount w X.val + limbCount w X.val ≤ mpiDivLimbs

theorem squareLoop_spec {w : Nat} (hw : 0 < w) {X W : MpiNum} (hX : HalfSmall w X)
    (hval : 2 < X.val) (hW : W.val = X.val - 1) (left : Nat) {T : MpiNum} (hT : T.n ≤ mpiDivLimbs)
    (hA : A.n ≤ mpiDivLimbs) (hlow : 0 ≤ A.val) (hhigh : A.val < X.val) :
    ∃ A', squareLoop w X W left T A = .ok A' ∧
      (A'.val = W.val ↔ ∃ i ≤ left, A.val ^ 2 ^ i % X.val = W.val) := by
  have hself : A.val % X.val = A.val := Int.emod_eq_of_lt hlow hhigh
  induction left generalizing T A with
  | zero =>
    refine ⟨A, rfl, ?_⟩
    constructor
    · intro heq
      refine ⟨0, Nat.le_refl _, ?_⟩
      rw [Nat.pow_zero, pow_one, hself, heq]
    · rintro ⟨i, hi, heq⟩
      rw [Nat.le_zero.mp hi, Nat.pow_zero, pow_one, hself] at heq
      exact heq
  | succ left ih =>
    unfold squareLoop
    by_cases hdone : A.val = W.val
    · refine ⟨A, by rw [if_pos hdone], iff_of_true hdone ⟨0, Nat.zero_le _, ?_⟩⟩
      rw [Nat.pow_zero, pow_one, hself, hdone]
    have hAX : limbCount w A.val ≤ limbCount w X.val := limbCount_mono hw (by omega)
    obtain ⟨T', hmul, hTval, hTsmall⟩ := mbedtlsMpiMulMpi_of_le hw
      (A := A) (B := A) (X := T) (by have := hX.half; omega) hT
    obtain ⟨A', hmod, hAval, hAsmall⟩ := mbedtlsMpiModMpi_of_small hw hTsmall hX.small hA (by omega)
    rw [hTval] at hAval
    have hpow (i : Nat) : A'.val ^ 2 ^ i % X.val = A.val ^ 2 ^ (i + 1) % X.val := by
      rw [hAval, square_emod_pow]
    have hnot : ¬ A.val ^ 2 ^ 0 % X.val = W.val := by
      rwa [Nat.pow_zero, pow_one, hself]
    rw [if_neg hdone, hmul]
    simp only [bind, Except.bind, hmod]
    by_cases hone : A'.val = 1
    · refine ⟨A', by rw [if_pos hone], iff_of_false (by omega) ?_⟩
      rintro ⟨i, _, heq⟩
      cases i with
      | zero => exact hnot heq
      | succ i =>
        rw [← hpow, hone, one_pow, Int.emod_eq_of_lt (by decide) (by omega)] at heq
        omega
    · rw [if_neg hone]
      have hnonneg : 0 ≤ A'.val := by
        rw [hAval]
        exact Int.emod_nonneg _ (by omega)
      have hless : A'.val < X.val := by
        rw [hAval]
        exact Int.emod_lt_of_pos _ (by omega)
      obtain ⟨Z, hloop, hiff⟩ := ih hTsmall.n_le hAsmall.n_le hnonneg hless
        (Int.emod_eq_of_lt hnonneg hless)
      refine ⟨Z, hloop, hiff.trans ?_⟩
      constructor
      · rintro ⟨i, hi, heq⟩
        exact ⟨i + 1, by omega, (hpow i).symm.trans heq⟩
      · rintro ⟨i, hi, heq⟩
        cases i with
        | zero => exact absurd heq hnot
        | succ i => exact ⟨i, by omega, (hpow i).trans heq⟩

/-! ## Rounds -/

variable {α : Type} {s : σ} {rounds : Nat}

theorem mod_two_pow_of_testBit {n i : Nat} (h : ∀ j < i, n.testBit j = false) : n % 2 ^ i = 0 := by
  apply Nat.eq_of_testBit_eq
  intro j
  rw [Nat.testBit_mod_two_pow, Nat.zero_testBit]
  by_cases hj : j < i
  · rw [h j hj, Bool.and_false]
  · rw [decide_eq_false hj, Bool.false_and]

theorem mbedtlsMpiLsb_spec {W : MpiNum} (hW : 0 < W.val) :
    (∃ d : Nat, W.val = d * 2 ^ mbedtlsMpiLsb W) ∧ (W.val % 2 = 0 → 0 < mbedtlsMpiLsb W) := by
  obtain ⟨v, hv⟩ := Int.eq_ofNat_of_zero_le (Int.le_of_lt hW)
  unfold mbedtlsMpiLsb
  rw [hv, Int.natAbs_natCast]
  cases hfind : (List.range v.size).find? fun i => v.testBit i with
  | none =>
    have hall : v % 2 ^ v.size = 0 := by
      apply mod_two_pow_of_testBit
      intro j hj
      have hnone := List.find?_eq_none.mp hfind j (List.mem_range.mpr hj)
      simpa using hnone
    rw [Nat.mod_eq_of_lt (Nat.lt_size_self v)] at hall
    omega
  | some i =>
    obtain ⟨hbit, _, hbelow⟩ := List.find?_range_eq_some.mp hfind
    have hmod : v % 2 ^ i = 0 := by
      apply mod_two_pow_of_testBit
      intro j hj
      simpa using hbelow j hj
    rw [Option.getD_some]
    constructor
    · refine ⟨v / 2 ^ i, ?_⟩
      exact_mod_cast (Nat.div_mul_cancel (Nat.dvd_of_mod_eq_zero hmod)).symm
    · intro heven
      by_contra hzero
      rw [Nat.eq_zero_of_not_pos hzero, Nat.testBit_zero, decide_eq_true_eq] at hbit
      omega

structure IsBase (X A : MpiNum) : Prop where
  low : 1 < A.val
  high : A.val < X.val - 1
  n_eq : A.n = X.n

structure Fits (w : Nat) (X : MpiNum) : Prop where
  pos : 0 < X.n
  room : X.n * 2 + 3 ≤ mpiDivLimbs
  bits : X.val.natAbs.size ≤ mbedtlsMpiMaxBits
  value : X.val < 2 ^ (w * X.n)

theorem Fits.limbCount_le {w : Nat} (hw : 0 < w) {X : MpiNum} (h : Fits w X) (hX : 0 ≤ X.val) :
    limbCount w X.val ≤ X.n := by
  obtain ⟨v, hv⟩ := Int.eq_ofNat_of_zero_le hX
  have hlt := h.value
  rw [TfPsaCrypto.limbCount_le hw]
  rw [hv] at hlt ⊢
  rw [Int.natAbs_natCast]
  exact_mod_cast hlt

theorem Fits.halfSmall {w : Nat} (hw : 0 < w) {X : MpiNum} (h : Fits w X) (hX : 0 ≤ X.val) :
    HalfSmall w X := by
  have hle := h.limbCount_le hw hX
  have hroom := h.room
  exact ⟨⟨by omega, by omega⟩, by omega⟩

theorem radixSquare_ok {w n : Nat} (hw : 0 < w) (hn : 0 < n) (hroom : n * 2 + 3 ≤ mpiDivLimbs) :
    ∃ RR, mbedtlsMpiShiftL w ⟨1, 1⟩ (n * 2 * w) = .ok RR ∧ RR.Small w := by
  have hbits : 1 * w < (1 : Int).natAbs.size + n * 2 * w := by
    have hmul := Nat.mul_le_mul_right w (show 1 ≤ n * 2 by omega)
    have hsize : 0 < (1 : Int).natAbs.size := Nat.size_pos.mpr (by decide)
    omega
  have hsize : (1 : Int).natAbs.size ≤ w := Nat.size_le.mpr (Nat.one_lt_two_pow (by omega))
  have hlimbs : bitsToLimbs w ((1 : Int).natAbs.size + n * 2 * w) ≤ n * 2 + 1 := by
    apply bitsToLimbs_le _ hw
    rw [Nat.succ_mul]
    omega
  have hcount : limbCount w (1 * 2 ^ (n * 2 * w)) ≤ n * 2 + 1 := by
    rw [limbCount_le hw, Int.one_mul, Int.natAbs_pow]
    apply Nat.pow_lt_pow_right (by decide)
    rw [Nat.mul_comm w, Nat.succ_mul]
    omega
  unfold mbedtlsMpiShiftL
  rw [if_pos hbits]
  obtain ⟨Z, hZ, _, hsmall⟩ := MpiNum.grow_of_le (w := w) (X := ⟨1, 1⟩)
    (show bitsToLimbs w ((1 : Int).natAbs.size + n * 2 * w) ≤ mpiDivLimbs by omega)
    (by decide) (show limbCount w (1 * 2 ^ (n * 2 * w)) ≤ mpiDivLimbs by omega)
  exact ⟨Z, hZ, hsmall⟩

theorem mbedtlsMpiExpMod_of_fits {w : Nat} (hw : 0 < w) {X E : MpiNum} (hX : Fits w X)
    (hodd : X.val % 2 = 1) (hval : 2 < X.val) (hA : IsBase X A) (hE : 0 ≤ E.val)
    (hElt : E.val < X.val) (hEn : E.n ≠ 0) :
    ∃ Z, mbedtlsMpiExpMod w A A E X = .ok Z ∧ Z.val = A.val ^ E.val.toNat % X.val ∧
      Z.n ≤ mpiDivLimbs := by
  have hroom := hX.room
  have hsmall := (hX.halfSmall hw (by omega)).small
  have hEbits : E.val.natAbs.size ≤ mbedtlsMpiMaxBits :=
    Nat.le_trans (Nat.size_le_size (by omega)) hX.bits
  have hAcount : limbCount w A.val ≤ X.n :=
    Nat.le_trans (limbCount_mono hw (by have := hA.low; have := hA.high; omega))
      (hX.limbCount_le hw (by omega))
  unfold mbedtlsMpiExpMod
  rw [if_neg (by omega), if_neg (by omega), if_neg (by have := hX.bits; omega), if_neg hEn]
  obtain ⟨RR, hRR, hRRsmall⟩ := radixSquare_ok hw hX.pos hroom
  obtain ⟨R₂, hR₂, _⟩ := mbedtlsMpiModMpi_of_small hw hRRsmall hsmall hRRsmall.n_le
    (by omega : 0 < X.val)
  have hset : mbedtlsMpiLset .init 1 = .ok ⟨1, 1⟩ := rfl
  have hcopied : ∃ C, mbedtlsMpiCopy w A A = .ok C ∧ C.val = A.val ∧ C.Small w := by
    have hn := hA.n_eq
    apply MpiNum.grow_of_le _ (by omega) (by omega)
    split
    · exact Nat.zero_le _
    · exact Nat.max_le.mpr ⟨by omega, by omega⟩
  obtain ⟨C, hcopy, hCval, hCsmall⟩ := hcopied
  have hCabs : ((C.val.natAbs : Nat) : Int) < X.val := by
    have := hA.low
    have := hA.high
    omega
  have hpow : limbCount w (A.val ^ E.val.toNat % X.val) ≤ mpiDivLimbs := by
    have hnonneg := Int.emod_nonneg (A.val ^ E.val.toNat) (show X.val ≠ 0 by omega)
    have hlt := Int.emod_lt_of_pos (A.val ^ E.val.toNat) (show 0 < X.val by omega)
    exact Nat.le_trans (limbCount_mono hw (by omega)) hsmall.val_le
  obtain ⟨Z, hgrow, hZval, hZsmall⟩ := MpiNum.grow_of_le
    (X := { C with val := C.val.natAbs }) (show X.n ≤ mpiDivLimbs by omega) hCsmall.n_le hpow
  refine ⟨Z, ?_, hZval, hZsmall.n_le⟩
  simp only [bind, Except.bind, hset, hRR, hR₂, hcopy]
  rw [if_neg (Int.not_le.mpr hCabs)]
  exact hgrow

theorem Returns.bind {β : Type} {x : PrimeM σ ε α} {f : α → PrimeM σ ε β} {a : α} {s₁ : σ}
    (h : Returns x s a s₁) : (x >>= f) s = f a s₁ := by
  change Except.bind (x s) _ = _
  rw [h]
  rfl

theorem returns_ofMpi_ok (a : α) (s : σ) :
    Returns (PrimeM.ofMpi (.ok a) : PrimeM σ ε α) s a s := rfl

inductive Bases (w : Nat) (rng : Rng σ ε) (X W : MpiNum) : Nat → σ → List MpiNum → σ → Prop where
  | nil (s : σ) : Bases w rng X W 0 s [] s
  | cons {rounds : Nat} {s s₁ s' : σ} {A : MpiNum} {As : List MpiNum}
      (hbase : Returns (randomBaseLoop w rng X W 32) s A s₁)
      (hrest : Bases w rng X W rounds s₁ As s') : Bases w rng X W (rounds + 1) s (A :: As) s'

section

variable {w : Nat} {rng : Rng σ ε} {X W : MpiNum}

theorem charsToLimbs_mul (hw : 0 < ciL w) (n : Nat) : charsToLimbs w (n * ciL w) = n := by
  unfold charsToLimbs
  rw [Nat.mul_mod_left, if_neg (not_not.mpr rfl), Nat.mul_div_cancel _ hw, Nat.add_zero]

theorem mbedtlsMpiFillRandom_n {size : Nat} {s' : σ}
    (h : Returns (mbedtlsMpiFillRandom w rng size) s A s') : A.n = charsToLimbs w size := by
  unfold Returns mbedtlsMpiFillRandom at h
  simp only at h
  split at h
  · cases h
  split at h
  · cases h
    rfl
  · split at h
    · cases h
    · cases h
      rfl

theorem maskTop_n {k : Nat} {A' : MpiNum} (h : maskTop w k A = .ok A') : A'.n = A.n := by
  unfold maskTop at h
  simp only at h
  split at h
  · cases h
  · cases h
    rfl

theorem randomBaseLoop_isBase (hw : 0 < ciL w) (hW : W.val = X.val - 1) {left : Nat} {s' : σ}
    (h : Returns (randomBaseLoop w rng X W left) s A s') : IsBase X A := by
  induction left generalizing s with
  | zero => exact absurd h not_returns_throw
  | succ left ih =>
    obtain ⟨B, s₁, hfill, hrest⟩ := returns_bind.mp h
    have hB := (mbedtlsMpiFillRandom_n hfill).trans (charsToLimbs_mul hw X.n)
    obtain ⟨C, s₂, hmask, hcheck⟩ := returns_bind.mp hrest
    have hC : C.n = X.n := by
      split at hmask
      · split at hmask
        · exact absurd hmask not_returns_fault
        · next hmasked =>
          rw [(returns_pure.mp hmask).1]
          exact (maskTop_n hmasked).trans hB
      · rw [(returns_pure.mp hmask).1]
        exact hB
    split at hcheck
    · exact absurd hcheck not_returns_throw
    split at hcheck
    · exact ih hcheck
    · next hrange =>
      rw [(returns_pure.mp hcheck).1]
      exact ⟨by omega, by omega, hC⟩

theorem Bases.isBase (hw : 0 < ciL w) (hW : W.val = X.val - 1) {s' : σ} {As : List MpiNum}
    (h : Bases w rng X W rounds s As s') : ∀ A ∈ As, IsBase X A := by
  induction h with
  | nil s => nofun
  | cons hbase _ ih =>
    intro A hA
    rcases List.mem_cons.mp hA with rfl | hmem
    · exact randomBaseLoop_isBase hw hW hbase
    · exact ih A hmem

end

theorem emod_pow_emod (x a : Int) (d i : Nat) : (a ^ d % x) ^ 2 ^ i % x = a ^ (d * 2 ^ i) % x := by
  have hmod : (a ^ d % x) ^ 2 ^ i ≡ (a ^ d) ^ 2 ^ i [ZMOD x] := (Int.mod_modEq _ _).pow _
  rw [hmod, ← pow_mul]

/-- The number, `W` and `R` of a call of `mpi_miller_rabin`. -/
structure Setup (w : Nat) (X W R : MpiNum) (s : Nat) : Prop where
  fits : Fits w X
  odd : X.val % 2 = 1
  two_lt : 2 < X.val
  w_val : W.val = X.val - 1
  r_val : R.val * 2 ^ s = W.val
  r_nonneg : 0 ≤ R.val
  r_lt : R.val < X.val
  r_n : R.n ≠ 0
  s_pos : 0 < s

theorem round_spec {w : Nat} (hw : 0 < w) {X W R : MpiNum} {s : Nat} (h : Setup w X W R s)
    (hA : IsBase X A) :
    ∃ Z, mbedtlsMpiExpMod w A A R X = .ok Z ∧
      ((Z.val = W.val ∨ Z.val = 1) → IsStrongBase X.val R.val.toNat s A.val) ∧
      (¬ (Z.val = W.val ∨ Z.val = 1) → ∃ B, squareLoop w X W (s - 1) .init Z = .ok B ∧
        ((B.val ≠ W.val ∨ B.val = 1) ↔ ¬ IsStrongBase X.val R.val.toNat s A.val)) := by
  have htwo := h.two_lt
  have hWval := h.w_val
  have hs := h.s_pos
  obtain ⟨Z, hexp, hZval, hZn⟩ := mbedtlsMpiExpMod_of_fits hw h.fits h.odd h.two_lt hA h.r_nonneg
    h.r_lt h.r_n
  have hnonneg : 0 ≤ Z.val := by
    rw [hZval]
    exact Int.emod_nonneg _ (by omega)
  have hless : Z.val < X.val := by
    rw [hZval]
    exact Int.emod_lt_of_pos _ (by omega)
  have hpow (i : Nat) : Z.val ^ 2 ^ i % X.val = A.val ^ (R.val.toNat * 2 ^ i) % X.val := by
    rw [hZval, emod_pow_emod]
  refine ⟨Z, hexp, ?_, ?_⟩
  · rintro (heq | hone)
    · refine .inr ⟨0, hs, ?_⟩
      rw [← hpow, Nat.pow_zero, pow_one, Int.emod_eq_of_lt hnonneg hless, heq, hWval]
    · exact .inl (hZval.symm.trans hone)
  · intro hnot
    obtain ⟨hne, hneOne⟩ := not_or.mp hnot
    obtain ⟨B, hloop, hiff⟩ := squareLoop_spec hw (h.fits.halfSmall hw (by omega)) htwo hWval
      (s - 1) (show MpiNum.init.n ≤ mpiDivLimbs by decide) hZn hnonneg hless
    refine ⟨B, hloop, ?_⟩
    have hstrong : IsStrongBase X.val R.val.toNat s A.val ↔ B.val = W.val := by
      rw [hiff]
      constructor
      · rintro (hone | ⟨i, hi, heq⟩)
        · exact absurd (hZval.trans hone) hneOne
        · exact ⟨i, by omega, by rw [hpow, heq, hWval]⟩
      · rintro ⟨i, hi, heq⟩
        exact .inr ⟨i, by omega, by rw [← hpow, heq, hWval]⟩
    rw [hstrong]
    omega

theorem millerRabinLoop_bases {w : Nat} (hw : 0 < w) (hciL : 0 < ciL w) {rng : Rng σ ε}
    {X W R : MpiNum} {lsb : Nat} (h : Setup w X W R lsb) {s' : σ} {As : List MpiNum}
    (hbases : Bases w rng X W rounds s As s') :
    ((∀ A ∈ As, IsStrongBase X.val R.val.toNat lsb A.val) →
        Returns (millerRabinLoop w rng X W R lsb rounds) s () s') ∧
      ((∃ A ∈ As, ¬ IsStrongBase X.val R.val.toNat lsb A.val) →
        ∃ s₁, millerRabinLoop w rng X W R lsb rounds s =
          .ok (.error (.mpi .notAcceptable), s₁)) := by
  induction hbases with
  | nil s => exact ⟨fun _ => rfl, nofun⟩
  | @cons rounds s s₁ s' A As hbase _ ih =>
    obtain ⟨Z, hexp, haccept, hsquare⟩ := round_spec hw h (randomBaseLoop_isBase hciL h.w_val hbase)
    have hstep : millerRabinLoop w rng X W R lsb (rounds + 1) s =
        if IsStrongBase X.val R.val.toNat lsb A.val then
          millerRabinLoop w rng X W R lsb rounds s₁
        else .ok (.error (.mpi .notAcceptable), s₁) := by
      rw [millerRabinLoop, hbase.bind, hexp, (returns_ofMpi_ok Z s₁).bind]
      by_cases hfirst : Z.val = W.val ∨ Z.val = 1
      · rw [if_pos hfirst, if_pos (haccept hfirst)]
      obtain ⟨B, hloop, hiff⟩ := hsquare hfirst
      rw [if_neg hfirst, hloop, (returns_ofMpi_ok B s₁).bind]
      by_cases hstrong : IsStrongBase X.val R.val.toNat lsb A.val
      · rw [if_neg (fun hbad => hiff.mp hbad hstrong), if_pos hstrong]
      · rw [if_pos (hiff.mpr hstrong), if_neg hstrong]
        rfl
    unfold Returns at ih ⊢
    rw [hstep]
    constructor
    · intro hall
      rw [if_pos (hall A List.mem_cons_self)]
      exact ih.1 fun B hB => hall B (List.mem_cons_of_mem _ hB)
    rintro ⟨B, hB, hnot⟩
    by_cases hstrong : IsStrongBase X.val R.val.toNat lsb A.val
    · rw [if_pos hstrong]
      refine ih.2 ⟨B, ?_, hnot⟩
      rcases List.mem_cons.mp hB with rfl | hmem
      · exact absurd hstrong hnot
      · exact hmem
    · rw [if_neg hstrong]
      exact ⟨s₁, rfl⟩

/-! ## The shift of the mask -/

def Defined {α : Type} (x : PrimeM σ ε α) (s : σ) : Prop := x s ≠ .error .undefinedShift

theorem Defined.bind {β : Type} {x : PrimeM σ ε α} {f : α → PrimeM σ ε β} (hx : Defined x s)
    (hf : ∀ a s₁, Returns x s a s₁ → Defined (f a) s₁) :
    Defined (x >>= f) s := by
  unfold Defined at hx ⊢
  change Except.bind (x s) _ ≠ _
  cases hrun : x s with
  | error fault =>
    intro herror
    rw [hrun] at hx
    cases fault with
    | undefinedShift => exact hx rfl
    | fuel => cases herror
  | ok r =>
    obtain ⟨r, s₁⟩ := r
    cases r with
    | error e => nofun
    | ok a => exact hf a s₁ hrun

section

variable {w : Nat} {rng : Rng σ ε} {X W : MpiNum}

theorem fillRandom_defined (size : Nat) (s : σ) :
    Defined (mbedtlsMpiFillRandom w rng size) s := by
  unfold Defined mbedtlsMpiFillRandom
  simp only
  split
  · nofun
  · split
    · nofun
    · split <;> nofun

theorem maskTop_defined {k : Nat} (hw : w ≤ 64) (hlow : (A.n - 1) * w < k)
    (hhigh : k ≤ (A.n - 1) * w + w) : ∃ A', maskTop w k A = .ok A' := by
  unfold maskTop
  have hshift : (((k : Int) - ((A.n - 1) * w : Nat) - 1) % 2 ^ 64).toNat =
      k - (A.n - 1) * w - 1 := by
    rw [Int.emod_eq_of_lt (by omega) (by omega)]
    omega
  rw [hshift, if_neg (by omega)]
  exact ⟨_, rfl⟩

theorem maskTop_undefined {k : Nat} (hn : A.n ≤ mbedtlsMpiMaxLimbs) (hw : w ≤ 64)
    (hle : k ≤ (A.n - 1) * w) : maskTop w k A = .error .undefinedShift := by
  have hmax : mbedtlsMpiMaxLimbs = 10000 := rfl
  have hmul := Nat.mul_le_mul (show A.n - 1 ≤ 10000 by omega) hw
  unfold maskTop
  have hshift : (((k : Int) - ((A.n - 1) * w : Nat) - 1) % 2 ^ 64) =
      (k : Int) - ((A.n - 1) * w : Nat) - 1 + 2 ^ 64 := by
    rw [← Int.add_emod_right, Int.emod_eq_of_lt (by omega) (by omega)]
  rw [hshift, if_pos (by omega)]

theorem randomBaseLoop_defined (hw : w ≤ 64) (hciL : 0 < ciL w)
    (hlow : (X.n - 1) * w < W.val.natAbs.size) (hhigh : W.val.natAbs.size ≤ (X.n - 1) * w + w)
    (left : Nat) (s : σ) : Defined (randomBaseLoop w rng X W left) s := by
  induction left generalizing s with
  | zero => nofun
  | succ left ih =>
    apply (fillRandom_defined _ s).bind
    intro A s₁ hfill
    have hA := (mbedtlsMpiFillRandom_n hfill).trans (charsToLimbs_mul hciL X.n)
    obtain ⟨A', hmask⟩ := maskTop_defined (k := W.val.natAbs.size) hw (by rwa [hA]) (by rwa [hA])
    apply Defined.bind
    · rw [hmask]
      split <;> nofun
    intro B s₂ _
    split
    · nofun
    · split
      · exact ih s₂
      · nofun

theorem millerRabinLoop_defined (hw : w ≤ 64) (hciL : 0 < ciL w)
    (hlow : (X.n - 1) * w < W.val.natAbs.size) (hhigh : W.val.natAbs.size ≤ (X.n - 1) * w + w)
    (R : MpiNum) (lsb rounds : Nat) (s : σ) :
    Defined (millerRabinLoop w rng X W R lsb rounds) s := by
  have hofMpi {α : Type} (r : Except MpiError α) (s : σ) :
      Defined (PrimeM.ofMpi r : PrimeM σ ε α) s := by
    nofun
  induction rounds generalizing s with
  | zero => nofun
  | succ rounds ih =>
    apply (randomBaseLoop_defined hw hciL hlow hhigh 32 s).bind
    intro A s₁ _
    apply (hofMpi _ s₁).bind
    intro Z s₂ _
    split
    · exact ih s₂
    apply (hofMpi _ s₂).bind
    intro B s₃ _
    split
    · nofun
    · exact ih s₃

end

/-! ## The test -/

def minusOne (X : MpiNum) : MpiNum := ⟨X.val - 1, X.n⟩

theorem mpiMillerRabin_eq {w : Nat} (hw : 0 < w) {X : MpiNum} (hpos : 0 < X.n)
    (hn : X.n ≤ mbedtlsMpiMaxLimbs) (hodd : X.val % 2 = 1) (hval : 2 < X.val)
    (hroom : limbCount w X.val ≤ X.n) :
    ∃ R : MpiNum, R.val * 2 ^ mbedtlsMpiLsb (minusOne X) = X.val - 1 ∧ 0 ≤ R.val ∧ R.n ≠ 0 ∧
      0 < mbedtlsMpiLsb (minusOne X) ∧ ∀ {σ ε : Type} (rng : Rng σ ε) (rounds : Nat),
        mpiMillerRabin w rng X rounds =
          millerRabinLoop w rng X (minusOne X) R (mbedtlsMpiLsb (minusOne X)) rounds := by
  have hWpos : 0 < (minusOne X).val := by
    change 0 < X.val - 1
    omega
  have hsub : mbedtlsMpiSubInt w .init X = .ok (minusOne X) := by
    unfold mbedtlsMpiSubInt mbedtlsMpiSubMpi MpiNum.grow minusOne MpiNum.init
    simp only
    have hone : (1 : Int).natAbs ≤ X.val.natAbs := by omega
    rw [if_pos (by omega), if_pos hone, if_neg (by omega), Nat.zero_max]
  have hWcount : limbCount w (minusOne X).val ≤ X.n := by
    refine Nat.le_trans (limbCount_mono hw ?_) hroom
    change (X.val - 1).natAbs ≤ _
    omega
  have hcopy : mbedtlsMpiCopy w .init (minusOne X) =
      .ok ⟨(minusOne X).val, max 1 (limbCount w (minusOne X).val)⟩ := by
    have hWn : (minusOne X).n ≠ 0 := by
      change X.n ≠ 0
      omega
    unfold mbedtlsMpiCopy MpiNum.grow
    rw [if_neg hWn, if_neg (by omega)]
    simp [MpiNum.init]
  obtain ⟨⟨d, hd⟩, hlsb⟩ := mbedtlsMpiLsb_spec hWpos
  have hR : (mbedtlsMpiShiftR ⟨(minusOne X).val, max 1 (limbCount w (minusOne X).val)⟩
      (mbedtlsMpiLsb (minusOne X))).val = d := by
    unfold mbedtlsMpiShiftR
    simp only
    rw [Int.tdiv_eq_ediv_of_nonneg (by omega)]
    conv_lhs => rw [hd]
    exact Int.mul_ediv_cancel _ (by positivity)
  refine ⟨mbedtlsMpiShiftR ⟨(minusOne X).val, max 1 (limbCount w (minusOne X).val)⟩
    (mbedtlsMpiLsb (minusOne X)), ?_, ?_, ?_, ?_, ?_⟩
  · rw [hR, ← hd]
    rfl
  · rw [hR]
    exact Int.natCast_nonneg _
  · unfold mbedtlsMpiShiftR
    simp only
    omega
  · apply hlsb
    change (X.val - 1) % 2 = 0
    omega
  · intro σ ε rng rounds
    funext s
    unfold mpiMillerRabin
    rw [hsub, (returns_ofMpi_ok _ s).bind]
    rw [hcopy, (returns_ofMpi_ok _ s).bind]

def absNum (X : MpiNum) : MpiNum := ⟨X.val.natAbs, X.n⟩

def Witnesses (X : MpiNum) (a : Int) : Prop :=
  ¬ IsStrongBase X.val ((X.val - 1).toNat / 2 ^ mbedtlsMpiLsb (minusOne X))
    (mbedtlsMpiLsb (minusOne X)) a

theorem smallFactorsLoop_error {X : MpiNum} {gaps : List Nat} {e : MpiError} (hp : 2 ≤ p)
    (h : smallFactorsLoop X gaps p = .error e) :
    e = .notAcceptable ∧ ∃ q : Nat, 2 ≤ q ∧ X.val % q = 0 ∧ X.val ≠ q := by
  induction gaps generalizing p with
  | nil => cases h
  | cons gap gaps ih =>
    unfold smallFactorsLoop at h
    split at h
    · next hzero =>
      split at h
      · cases h
      · next hne =>
        cases h
        exact ⟨rfl, p, hp, hzero, hne⟩
    · exact ih (by omega) h

theorem mpiCheckSmallFactors_error {X : MpiNum} {e : MpiError} (hodd : X.val % 2 = 1)
    (h : mpiCheckSmallFactors X = .error e) :
    e = .notAcceptable ∧ ∃ q : Nat, 2 ≤ q ∧ X.val % q = 0 ∧ X.val ≠ q := by
  unfold mpiCheckSmallFactors at h
  rw [if_neg (by omega)] at h
  exact smallFactorsLoop_error (by decide) h

def tableCheck : Bool :=
  (primesFrom smallPrimeGaps 3).all fun p => decide (2 ≤ p) && decide (p < 1024) &&
    (List.range 32).all fun m => decide (m < 2) || decide (p ≤ m) || decide (p % m ≠ 0)

theorem prime_of_mem_table (h : p ∈ primesFrom smallPrimeGaps 3) : p.Prime := by
  have hcheck : tableCheck = true := by decide +kernel
  have hp := List.all_eq_true.mp hcheck p h
  simp only [Bool.and_eq_true, decide_eq_true_eq] at hp
  obtain ⟨⟨htwo, hlt⟩, hall⟩ := hp
  rw [Nat.prime_def_le_sqrt]
  refine ⟨htwo, ?_⟩
  intro m hm hsqrt hdvd
  have hmul := Nat.le_sqrt.mp hsqrt
  have hmp : m < p := by
    have := Nat.mul_le_mul_left m hm
    omega
  have hrange : m < 32 := by
    by_contra hge
    have := Nat.mul_le_mul (Nat.not_lt.mp hge) (Nat.not_lt.mp hge)
    omega
  have hm32 := List.all_eq_true.mp hall m (List.mem_range.mpr hrange)
  simp only [Bool.or_eq_true, decide_eq_true_eq] at hm32
  omega

/-- One run of `mbedtls_mpi_is_prime_ext` on an odd number. -/
structure TreatsNumber (w : Nat) (rng : Rng σ ε) (X : MpiNum) (rounds : Nat) (s : σ) : Prop where
  shift : Defined (mbedtlsMpiIsPrimeExt w rng X rounds) s
  range : ∀ As s', Bases w rng (absNum X) (minusOne (absNum X)) rounds s As s' →
    ∀ A ∈ As, 1 < A.val ∧ A.val < |X.val| - 1
  prime : ∀ As s', Bases w rng (absNum X) (minusOne (absNum X)) rounds s As s' →
    X.val.natAbs.Prime → ∃ s₁, Returns (mbedtlsMpiIsPrimeExt w rng X rounds) s () s₁
  composite : ∀ As s', Bases w rng (absNum X) (minusOne (absNum X)) rounds s As s' →
    (∃ A ∈ As, Witnesses (absNum X) A.val) →
      ∃ s₁, mbedtlsMpiIsPrimeExt w rng X rounds s = .ok (.error (.mpi .notAcceptable), s₁)

section

variable {w : Nat} {X : MpiNum}

theorem isPrimeExt_check {rng : Rng σ ε} (htwo : 2 < X.val.natAbs) (s : σ) :
    mbedtlsMpiIsPrimeExt w rng X rounds s =
      match mpiCheckSmallFactors (absNum X) with
      | .error e => .ok (.error (.mpi e), s)
      | .ok ret =>
        if ret = 1 then .ok (.ok (), s) else mpiMillerRabin w rng (absNum X) rounds s := by
  have hne : ¬ ((X.val.natAbs : Int) = 0 ∨ (X.val.natAbs : Int) = 1) := by omega
  have hne2 : ¬ (X.val.natAbs : Int) = 2 := by omega
  unfold mbedtlsMpiIsPrimeExt
  rw [if_neg hne, if_neg hne2]
  change (PrimeM.ofMpi (mpiCheckSmallFactors (absNum X)) >>= _) s = _
  cases hcheck : mpiCheckSmallFactors (absNum X) with
  | error e => rfl
  | ok ret =>
    rw [(returns_ofMpi_ok ret s).bind]
    simp only
    split <;> rfl

theorem isStrongBase_of_setup (hodd : X.val % 2 = 1) (htwo : 2 < X.val)
    (hprime : X.val.natAbs.Prime) {R : MpiNum} (hA : IsBase X A)
    (hR : R.val * 2 ^ mbedtlsMpiLsb (minusOne X) = X.val - 1) (hnonneg : 0 ≤ R.val) :
    IsStrongBase X.val R.val.toNat (mbedtlsMpiLsb (minusOne X)) A.val := by
  obtain ⟨p, hp⟩ := Int.eq_ofNat_of_zero_le (show 0 ≤ X.val by omega)
  have hlow := hA.low
  have hhigh := hA.high
  obtain ⟨d, hd⟩ := Int.eq_ofNat_of_zero_le hnonneg
  rw [hp, Int.natAbs_natCast] at hprime
  rw [hd, hp] at hR
  rw [hp] at hhigh
  rw [hd, Int.toNat_natCast]
  have hds : d * 2 ^ mbedtlsMpiLsb (minusOne X) = p - 1 := by
    have hpos := hprime.one_lt
    zify [hpos.le]
    exact_mod_cast hR
  have hstrong := isStrongBase_of_prime hprime hds hlow hhigh
  rwa [hp]

end

/-- An odd number of `X.n` limbs that `mbedtls_mpi_exp_mod` admits. -/
structure OddNumber (w : Nat) (X : MpiNum) : Prop where
  odd : X.val % 2 = 1
  two_lt : 2 < X.val.natAbs
  value : X.val.natAbs < 2 ^ (w * X.n)
  limbs : X.n ≤ mbedtlsMpiMaxLimbs
  bits : X.val.natAbs.size ≤ mbedtlsMpiMaxBits

section

variable {w : Nat} {X : MpiNum}

theorem OddNumber.pos (h : OddNumber w X) : 0 < X.n := by
  by_contra hzero
  have hvalue := h.value
  have htwo := h.two_lt
  rw [Nat.eq_zero_of_not_pos hzero, Nat.mul_zero, Nat.pow_zero] at hvalue
  omega

theorem OddNumber.abs (h : OddNumber w X) : (absNum X).val % 2 = 1 ∧ 2 < (absNum X).val := by
  have hodd := h.odd
  have htwo := h.two_lt
  unfold absNum
  simp only
  omega

theorem OddNumber.limbCount_le (hw : 0 < w) (h : OddNumber w X) :
    limbCount w (absNum X).val ≤ X.n := by
  rw [TfPsaCrypto.limbCount_le hw]
  exact h.value

theorem OddNumber.fits (hw : w = 32 ∨ w = 64) (h : OddNumber w X)
    (htop : 2 ^ (w * (X.n - 1)) ≤ X.val.natAbs) : Fits w (absNum X) := by
  have hsize : w * (X.n - 1) < X.val.natAbs.size := Nat.lt_size.mpr htop
  have hbits := h.bits
  have hmax : mbedtlsMpiMaxBits = 8192 := rfl
  have hdiv : mpiDivLimbs = 9998 := rfl
  refine ⟨h.pos, ?_, h.bits, ?_⟩
  · change X.n * 2 + 3 ≤ mpiDivLimbs
    rcases hw with rfl | rfl <;> omega
  · change ((X.val.natAbs : Nat) : Int) < 2 ^ (w * X.n)
    exact_mod_cast h.value

theorem OddNumber.size_minusOne (h : OddNumber w X)
    (htop : 2 ^ (w * (X.n - 1)) ≤ X.val.natAbs) :
    (X.n - 1) * w < (minusOne (absNum X)).val.natAbs.size ∧
      (minusOne (absNum X)).val.natAbs.size ≤ (X.n - 1) * w + w := by
  have hodd := h.odd
  have htwo := h.two_lt
  have hvalue := h.value
  have hval : (minusOne (absNum X)).val.natAbs = X.val.natAbs - 1 := by
    change ((X.val.natAbs : Int) - 1).natAbs = _
    omega
  have hroom : (X.n - 1) * w + w = w * X.n := by
    rw [← Nat.succ_mul, Nat.succ_eq_add_one, Nat.sub_add_cancel h.pos, Nat.mul_comm]
  rw [hval, hroom]
  constructor
  · rw [Nat.lt_size, Nat.mul_comm]
    have hne : 2 ^ (w * (X.n - 1)) ≠ X.val.natAbs := by
      intro heq
      rcases Nat.eq_zero_or_pos (w * (X.n - 1)) with hzero | hpos
      · rw [hzero, Nat.pow_zero] at heq
        omega
      · have heven : 2 ∣ 2 ^ (w * (X.n - 1)) := dvd_pow_self 2 (Nat.ne_of_gt hpos)
        omega
    omega
  · rw [Nat.size_le]
    omega

theorem OddNumber.treats (hw : w = 32 ∨ w = 64) (h : OddNumber w X) {rounds : Nat}
    (hcond : rounds = 0 ∨ mpiCheckSmallFactors (absNum X) ≠ .ok 0 ∨
      2 ^ (w * (X.n - 1)) ≤ X.val.natAbs) (rng : Rng σ ε) (s : σ) :
    TreatsNumber w rng X rounds s := by
  have hpos : 0 < w := by omega
  have hle : w ≤ 64 := by omega
  have hciL : 0 < ciL w := by
    rcases hw with rfl | rfl <;> decide
  obtain ⟨hodd, htwo⟩ := h.abs
  obtain ⟨R, hR, hnonneg, hRn, hlsb, hMR⟩ := mpiMillerRabin_eq hpos (X := absNum X) h.pos h.limbs
    hodd htwo (h.limbCount_le hpos)
  have hbase {rounds : Nat} {As : List MpiNum} {s s' : σ}
      (hbases : Bases w rng (absNum X) (minusOne (absNum X)) rounds s As s') :
      ∀ A ∈ As, IsBase (absNum X) A := hbases.isBase hciL rfl
  have hRd : R.val.toNat =
      ((absNum X).val - 1).toNat / 2 ^ mbedtlsMpiLsb (minusOne (absNum X)) := by
    obtain ⟨d, hd⟩ := Int.eq_ofNat_of_zero_le hnonneg
    rw [← hR, hd, Int.toNat_natCast]
    have hmul : ((d : Int) * 2 ^ mbedtlsMpiLsb (minusOne (absNum X))).toNat =
        d * 2 ^ mbedtlsMpiLsb (minusOne (absNum X)) := by
      exact_mod_cast Int.toNat_natCast _
    rw [hmul, Nat.mul_div_cancel _ (Nat.two_pow_pos _)]
  have hstrong (hprime : X.val.natAbs.Prime) {A : MpiNum} (hA : IsBase (absNum X) A) :
      ¬ Witnesses (absNum X) A.val := by
    unfold Witnesses
    rw [← hRd, not_not]
    exact isStrongBase_of_setup hodd htwo hprime hA hR hnonneg
  have hrange : ∀ As s', Bases w rng (absNum X) (minusOne (absNum X)) rounds s As s' →
      ∀ A ∈ As, 1 < A.val ∧ A.val < |X.val| - 1 := by
    intro As s' hbases A hmem
    have hA := hbase hbases A hmem
    refine ⟨hA.low, ?_⟩
    rw [← Int.natCast_natAbs]
    exact hA.high
  have hrun : mbedtlsMpiIsPrimeExt w rng X rounds s = _ := isPrimeExt_check h.two_lt s
  cases hcheck : mpiCheckSmallFactors (absNum X) with
  | error e =>
    obtain ⟨rfl, q, hq, hzero, hne⟩ := mpiCheckSmallFactors_error hodd hcheck
    rw [hcheck] at hrun
    refine ⟨?_, hrange, ?_, fun _ _ _ _ => ⟨s, hrun⟩⟩
    · unfold Defined
      rw [hrun]
      nofun
    intro _ _ _ hprime
    have hdvd : q ∣ X.val.natAbs := by
      have hint : (q : Int) ∣ (X.val.natAbs : Nat) := Int.dvd_of_emod_eq_zero hzero
      exact Int.natCast_dvd_natCast.mp hint
    rcases hprime.eq_one_or_self_of_dvd q hdvd with hone | hself
    · omega
    · exact absurd (congrArg Int.ofNat hself.symm) hne
  | ok ret =>
    rw [hcheck] at hrun
    simp only at hrun
    rcases (mpiCheckSmallFactors_ok hcheck).2 with rfl | ⟨rfl, p, hp, heq⟩
    · rw [if_neg (by decide), hMR] at hrun
      rcases hcond with rfl | hnot | htop
      · refine ⟨?_, hrange, fun _ _ _ _ => ⟨s, hrun⟩, ?_⟩
        · unfold Defined
          rw [hrun]
          nofun
        · rintro As s' hbases ⟨A, hmem, _⟩
          cases hbases
          cases hmem
      · exact absurd hcheck hnot
      · obtain ⟨hlow, hhigh⟩ := h.size_minusOne htop
        have hsetup : Setup w (absNum X) (minusOne (absNum X)) R
            (mbedtlsMpiLsb (minusOne (absNum X))) := by
          have hRlt : R.val < (absNum X).val := by
            have hone : (1 : Int) ≤ 2 ^ mbedtlsMpiLsb (minusOne (absNum X)) :=
              one_le_pow₀ (by decide)
            have hmul := le_mul_of_one_le_right hnonneg hone
            omega
          exact ⟨h.fits hw htop, hodd, htwo, rfl, hR, hnonneg, hRlt, hRn, hlsb⟩
        refine ⟨?_, hrange, ?_, ?_⟩
        · unfold Defined
          rw [hrun]
          exact millerRabinLoop_defined (X := absNum X) hle hciL hlow hhigh R _ rounds s
        · intro As s' hbases hprime
          refine ⟨s', hrun.trans ((millerRabinLoop_bases hpos hciL hsetup hbases).1 ?_)⟩
          intro A hmem
          exact isStrongBase_of_setup hodd htwo hprime (hbase hbases A hmem) hR hnonneg
        · rintro As s' hbases ⟨A, hmem, hwitness⟩
          rw [hrun]
          refine (millerRabinLoop_bases hpos hciL hsetup hbases).2 ⟨A, hmem, ?_⟩
          unfold Witnesses at hwitness
          rwa [← hRd] at hwitness
    · rw [if_pos rfl] at hrun
      have hprime : X.val.natAbs.Prime := by
        have hnat : X.val.natAbs = p := Int.ofNat_inj.mp heq
        rw [hnat]
        exact prime_of_mem_table hp
      refine ⟨?_, hrange, fun _ _ _ _ => ⟨s, hrun⟩, ?_⟩
      · unfold Defined
        rw [hrun]
        nofun
      · rintro As s' hbases ⟨A, hmem, hwitness⟩
        exact absurd hwitness (hstrong hprime (hbase hbases A hmem))

/-- Draws of `0xFF` only. -/
def onesRng : Rng σ ε where
  draw s n := .ok (List.replicate n 0xFF, s)
  length_draw := by
    intro s s' n bytes h
    cases h
    exact List.length_replicate

theorem ofBE_ones {n : Nat} (hn : 0 < n) : 2 ^ (8 * n - 1) ≤ ofBE (List.replicate n 0xFF) := by
  obtain ⟨m, rfl⟩ := Nat.exists_eq_add_of_lt hn
  rw [Nat.zero_add, List.replicate_succ, ofBE_cons, List.length_replicate]
  have hpow : 2 ^ (8 * (m + 1) - 1) = 128 * 256 ^ m := by
    rw [show 8 * (m + 1) - 1 = 7 + 8 * m by omega, Nat.pow_add, Nat.pow_mul]
  have hbyte : (0xFF : UInt8).toNat = 255 := rfl
  rw [hpow, hbyte]
  omega

theorem bind_fault {β : Type} {x : PrimeM σ ε α} {f : α → PrimeM σ ε β} {fault : PrimeFault}
    (h : x s = .error fault) : (x >>= f) s = .error fault := by
  change Except.bind (x s) _ = _
  rw [h]
  rfl

theorem OddNumber.undefined (hw : w = 32 ∨ w = 64) (h : OddNumber w X) (hrounds : rounds ≠ 0)
    (hcheck : mpiCheckSmallFactors (absNum X) = .ok 0) (htop : X.val.natAbs < 2 ^ (w * (X.n - 1)))
    (s : σ) :
    mbedtlsMpiIsPrimeExt w (onesRng : Rng σ ε) X rounds s = .error .undefinedShift := by
  have hpos : 0 < w := by omega
  have hle : w ≤ 64 := by omega
  have hciL : 0 < ciL w := by
    rcases hw with rfl | rfl <;> decide
  have hbits : 8 * ciL w = w := by
    rcases hw with rfl | rfl <;> rfl
  have hn := h.pos
  obtain ⟨hodd, htwo⟩ := h.abs
  obtain ⟨R, _, _, _, _, hMR⟩ := mpiMillerRabin_eq hpos (X := absNum X) h.pos h.limbs hodd htwo
    (h.limbCount_le hpos)
  obtain ⟨rounds, rfl⟩ := Nat.exists_eq_succ_of_ne_zero hrounds
  have hk : (minusOne (absNum X)).val.natAbs.size ≤ (X.n - 1) * w := by
    have htwoAbs := h.two_lt
    have hval : (minusOne (absNum X)).val.natAbs = X.val.natAbs - 1 := by
      change ((X.val.natAbs : Int) - 1).natAbs = _
      omega
    rw [hval, Nat.size_le, Nat.mul_comm]
    omega
  have hfill : mbedtlsMpiFillRandom w (onesRng : Rng σ ε) (X.n * ciL w) s =
      .ok (.ok ⟨ofBE (List.replicate (X.n * ciL w) 0xFF), X.n⟩, s) := by
    have hlimbs := h.limbs
    have hsize : X.n * ciL w ≠ 0 := Nat.ne_of_gt (Nat.mul_pos hn hciL)
    unfold mbedtlsMpiFillRandom
    rw [charsToLimbs_mul hciL, if_neg (by omega), if_neg hsize]
    rfl
  have hlarge : (minusOne (absNum X)).val.natAbs.size <
      (ofBE (List.replicate (X.n * ciL w) 0xFF)).size := by
    refine Nat.lt_of_le_of_lt hk (Nat.lt_size.mpr ?_)
    refine Nat.le_trans (Nat.pow_le_pow_right (by decide) ?_) (ofBE_ones (Nat.mul_pos hn hciL))
    have hmul : 8 * (X.n * ciL w) = (X.n - 1) * w + w := by
      calc 8 * (X.n * ciL w) = X.n * (8 * ciL w) := by ring
        _ = (X.n - 1 + 1) * w := by rw [hbits, Nat.sub_add_cancel hn]
        _ = (X.n - 1) * w + w := Nat.succ_mul _ _
    omega
  have hbase : randomBaseLoop w (onesRng : Rng σ ε) (absNum X) (minusOne (absNum X)) 32 s =
      .error .undefinedShift := by
    unfold randomBaseLoop
    have hreturns : Returns (mbedtlsMpiFillRandom w (onesRng : Rng σ ε) ((absNum X).n * ciL w)) s
      ⟨ofBE (List.replicate (X.n * ciL w) 0xFF), X.n⟩ s := hfill
    have hmask : maskTop w (minusOne (absNum X)).val.natAbs.size
        ⟨ofBE (List.replicate (X.n * ciL w) 0xFF), X.n⟩ = .error .undefinedShift :=
      maskTop_undefined h.limbs hle hk
    rw [hreturns.bind]
    apply bind_fault
    rw [Int.natAbs_natCast, if_pos hlarge, hmask]
    rfl
  rw [isPrimeExt_check h.two_lt, hcheck]
  simp only
  rw [if_neg (by decide), hMR]
  exact bind_fault hbase

end

theorem miller_rabin_treats_number_iff {w : Nat} (hw : w = 32 ∨ w = 64) [Nonempty σ] {X : MpiNum}
    (h : OddNumber w X) (rounds : Nat) :
    (∀ (rng : Rng σ ε) (s : σ), TreatsNumber w rng X rounds s) ↔
      rounds = 0 ∨ mpiCheckSmallFactors (absNum X) ≠ .ok 0 ∨
        2 ^ (w * (X.n - 1)) ≤ X.val.natAbs := by
  constructor
  · intro htreats
    by_contra hcond
    obtain ⟨hrounds, hrest⟩ := not_or.mp hcond
    obtain ⟨hcheck, htop⟩ := not_or.mp hrest
    obtain ⟨s⟩ := ‹Nonempty σ›
    exact (htreats (onesRng : Rng σ ε) s).shift
      (h.undefined hw hrounds (not_not.mp hcheck) (Nat.not_le.mp htop) s)
  · intro hcond rng s
    exact h.treats hw hcond rng s

/-- The prime 1009 with one limb. -/
theorem miller_rabin_treats_number_iff_1009 :
    (∀ (rng : Rng ByteString Unit) (s : ByteString), TreatsNumber 64 rng ⟨1009, 1⟩ 2 s) ↔
      2 = 0 ∨ mpiCheckSmallFactors (absNum ⟨1009, 1⟩) ≠ .ok 0 ∨
        2 ^ (64 * (1 - 1)) ≤ (1009 : Int).natAbs :=
  miller_rabin_treats_number_iff (.inr rfl)
    ⟨by decide, by decide, by decide, by decide, by decide⟩ 2

/-- The prime 1009 with a leading zero limb. -/
theorem miller_rabin_undefined_shift :
    Nat.Prime 1009 ∧
      mbedtlsMpiIsPrimeExt 64 (onesRng : Rng Unit Unit) ⟨1009, 2⟩ 1 () =
        .error .undefinedShift := by
  refine ⟨by norm_num, ?_⟩
  decide +kernel

end TfPsaCrypto.Prime
