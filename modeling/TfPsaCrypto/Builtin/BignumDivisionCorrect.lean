import TfPsaCrypto.Builtin.BignumDivision

/-!
# The long division is correct

The digits of `mbedtls_mpi_div_mpi` from the top: the quotient so far times the divisor, and the
remainder, make the dividend.
-/

namespace TfPsaCrypto

open Limbs LongDivision

variable {w : Nat} {α β : Type}

/-! ## Results -/

variable {P : α → Prop}

def DivYields (x : DivM α) (P : α → Prop) : Prop :=
  match x with
  | .ok a => P a
  | .error (.mpi _) => True
  | .error _ => False

theorem DivYields.bind {x : DivM α} {f : α → DivM β} {Q : β → Prop} (hx : DivYields x P)
    (hf : ∀ a, P a → DivYields (f a) Q) : DivYields (x >>= f) Q := by
  cases x with
  | ok a => exact hf a hx
  | error e =>
    cases e with
    | mpi _ => exact trivial
    | _ => exact hx

theorem DivYields.ofMpi {x : Except MpiError α} (h : ∀ a, x = .ok a → P a) :
    DivYields (DivM.ofMpi x) P := by
  cases x with
  | ok a => exact h a rfl
  | error e => exact trivial

theorem DivYields.bindMpi {x : Except MpiError α} {f : α → DivM β} {Q : β → Prop}
    (h : ∀ a, x = .ok a → DivYields (f a) Q) : DivYields (DivM.ofMpi x >>= f) Q :=
  (DivYields.ofMpi fun _ ha => ha).bind h

theorem DivYields.mono {x : DivM α} {Q : α → Prop} (hx : DivYields x P) (h : ∀ a, P a → Q a) :
    DivYields x Q := by
  cases x with
  | ok a => exact h a hx
  | error e =>
    cases e with
    | mpi _ => exact trivial
    | _ => exact hx

/-! ## The functions on one number -/

variable {v : Nat}

section Numbers

variable {X A B Z : MpiNum}

theorem MpiNum.eq_of_grow {nblimbs : Nat} {val : Int} (h : X.grow nblimbs val = .ok Z) :
    Z = ⟨val, max X.n nblimbs⟩ := by
  unfold grow at h
  split at h
  · exact absurd h (by simp)
  · exact (Except.ok.inj h).symm

theorem of_mbedtlsMpiLset {z : Int} (h : mbedtlsMpiLset X z = .ok Z) : Z.val = z ∧ X.n ≤ Z.n :=
  ⟨(MpiNum.of_grow h).1, (MpiNum.of_grow h).2.1⟩

theorem of_mbedtlsMpiCopy (h : mbedtlsMpiCopy w X A = .ok Z) : Z.val = A.val ∧ X.n ≤ Z.n :=
  ⟨(MpiNum.of_grow h).1, (MpiNum.of_grow h).2.1⟩

theorem of_mbedtlsMpiMulInt {b : BitVec w} (h : mbedtlsMpiMulInt X A b = .ok Z) :
    Z.val = A.val * b.toNat ∧ X.n ≤ Z.n := by
  unfold mbedtlsMpiMulInt at h
  split at h
  · next hzero =>
    obtain ⟨hval, hn⟩ := of_mbedtlsMpiLset h
    refine ⟨?_, hn⟩
    rcases hzero with rfl | hA
    · simp [hval]
    · simp [hval, hA]
  · exact ⟨(MpiNum.of_grow h).1, (MpiNum.of_grow h).2.1⟩

theorem of_mbedtlsMpiShiftL {count : Nat} (h : mbedtlsMpiShiftL w X count = .ok Z) :
    Z.val = X.val * 2 ^ count ∧ X.n ≤ Z.n := by
  unfold mbedtlsMpiShiftL at h
  simp only at h
  split at h
  · exact ⟨(MpiNum.of_grow h).1, (MpiNum.of_grow h).2.1⟩
  · have hZ := (Except.ok.inj h).symm
    subst hZ
    exact ⟨rfl, Nat.le_refl _⟩

theorem mbedtlsMpiAddMpi_val (h : mbedtlsMpiAddMpi w X A B = .ok Z) :
    Z.val = A.val + B.val := by
  unfold mbedtlsMpiAddMpi at h
  split at h
  · cases hadd : mbedtlsMpiAddAbs w X A B with
    | error e =>
      rw [hadd] at h
      cases h
    | ok S =>
      rw [hadd] at h
      cases h
      rfl
  · exact (MpiNum.of_grow h).1

theorem of_mbedtlsMpiAddMpi (hA : A.val < 0) (hB : 0 ≤ B.val)
    (h : mbedtlsMpiAddMpi w X A B = .ok Z) : Z.val = A.val + B.val ∧ X.n ≤ Z.n := by
  unfold mbedtlsMpiAddMpi at h
  rw [if_neg (by omega)] at h
  exact ⟨(MpiNum.of_grow h).1, (MpiNum.of_grow h).2.1⟩

theorem bitsToLimbs_eq (hw : 0 < w) (i : Nat) : bitsToLimbs w i = (i + (w - 1)) / w := by
  have hsplit := Nat.div_add_mod i w
  have hmod := Nat.mod_lt i hw
  unfold bitsToLimbs
  by_cases hzero : i % w = 0
  · rw [if_neg (by omega)]
    symm
    apply Nat.div_eq_of_lt_le
    · rw [Nat.add_zero, Nat.mul_comm]
      omega
    · rw [Nat.add_zero, Nat.succ_mul, Nat.mul_comm]
      omega
  · rw [if_pos hzero]
    symm
    apply Nat.div_eq_of_lt_le
    · rw [Nat.succ_mul, Nat.mul_comm]
      omega
    · rw [Nat.succ_mul, Nat.succ_mul, Nat.mul_comm]
      omega

theorem bitsToLimbs_le {i k : Nat} (h : i ≤ k * w) (hw : 0 < w) : bitsToLimbs w i ≤ k := by
  rw [bitsToLimbs_eq hw]
  have hlt : i + (w - 1) < (k + 1) * w := by
    rw [Nat.succ_mul]
    omega
  exact Nat.lt_succ_iff.mp ((Nat.div_lt_iff_lt_mul hw).mpr hlt)

theorem mbedtlsMpiShiftL_n (hw : 0 < w) {count : Nat} (hv : v ≠ 0) (hval : X.val = v)
    (hn : X.n = limbCount w v) (h : mbedtlsMpiShiftL w X count = .ok Z) :
    Z.val = (v * 2 ^ count : Nat) ∧ Z.n = limbCount w (v * 2 ^ count : Nat) := by
  have hsize : (v * 2 ^ count).size = v.size + count := by
    have hshift := size_add_mul_two_pow (Nat.two_pow_pos count) hv
    rw [Nat.zero_add, Nat.mul_comm] at hshift
    rw [hshift, Nat.add_comm]
  have hcast : ((v : Int) * 2 ^ count) = (v * 2 ^ count : Nat) := by push_cast; ring
  unfold mbedtlsMpiShiftL at h
  simp only [hval, Int.natAbs_natCast, hcast] at h
  unfold limbCount at hn ⊢
  rw [Int.natAbs_natCast] at hn ⊢
  rw [hsize]
  have hle : X.n ≤ (v.size + count + (w - 1)) / w := by
    rw [hn]
    exact Nat.div_le_div_right (by omega)
  split at h
  · rw [MpiNum.eq_of_grow h, bitsToLimbs_eq hw]
    exact ⟨rfl, Nat.max_eq_right hle⟩
  next hfits =>
  have hZ := (Except.ok.inj h).symm
  subst hZ
  refine ⟨rfl, ?_⟩
  apply Nat.le_antisymm hle
  rw [← Nat.lt_succ_iff, Nat.div_lt_iff_lt_mul hw, Nat.succ_mul]
  omega

theorem mbedtlsMpiCopy_n (hv : v ≠ 0) (hw : 0 < w) {n : Nat} (hn : limbCount w v ≤ n)
    (h : mbedtlsMpiCopy w .init ⟨v, n⟩ = .ok Z) : Z.val = v ∧ Z.n = limbCount w v := by
  have hpos : 0 < limbCount w v := by
    by_contra hzero
    have hlt := (limbCount_le (v := (v : Int)) (k := 0) hw).mp (by omega)
    rw [Nat.mul_zero, Nat.pow_zero, Int.natAbs_natCast] at hlt
    omega
  rw [MpiNum.eq_of_grow h, if_neg (by
    show n ≠ 0
    omega)]
  refine ⟨rfl, ?_⟩
  show max 0 (max 1 (limbCount w v)) = _
  omega

theorem MpiNum.limb_eq {i : Nat} (hval : X.val = v) (hi : i < X.n) :
    X.limb w i = .ok (BitVec.ofNat w (v / 2 ^ (w * i))) := by
  unfold limb
  rw [if_pos hi, hval, Int.natAbs_natCast]

end Numbers

/-! ## One digit -/

variable {p : List (BitVec w)} {fuel : Nat}

section Digit

variable {Y T1 : MpiNum} {y t j : Nat}

theorem setLimb_eq {i : Nat} (hi : i < p.length) (x : BitVec w) :
    setLimb p i x = .ok (p.set i x) := by
  unfold setLimb
  rw [if_pos hi]

theorem getD_set_self {i : Nat} (hi : i < p.length) (x : BitVec w) : (p.set i x).getD i 0 = x := by
  rw [List.getD_eq_getElem?_getD, List.getElem?_set_self hi]
  rfl

def leadTwo (w y t : Nat) : Nat := y * 2 ^ w / 2 ^ (w * t)

theorem divLeadProduct_spec (hval : Y.val = y) (hy : y < 2 ^ (w * (t + 1))) (ht : t < Y.n)
    (hT1 : 2 ≤ T1.n) (z : BitVec w) :
    DivYields (divLeadProduct Y t T1 z) fun T1' =>
      T1'.val = (z.toNat * leadTwo w y t : Nat) ∧ T1.n ≤ T1'.n := by
  have hhigh : (BitVec.ofNat w (y / 2 ^ (w * t))).toNat = y / 2 ^ (w * t) := by
    rw [BitVec.toNat_ofNat]
    apply Nat.mod_eq_of_lt
    rw [Nat.div_lt_iff_lt_mul (Nat.two_pow_pos _), ← Nat.pow_add]
    rwa [Nat.mul_succ, Nat.add_comm] at hy
  have hlow : ∃ low : BitVec w, Y.limbBelow w t 1 = .ok low ∧
      low.toNat + 2 ^ w * (y / 2 ^ (w * t)) = leadTwo w y t := by
    rcases Nat.eq_zero_or_pos t with rfl | hpos
    · refine ⟨0, rfl, ?_⟩
      simp [leadTwo, Nat.mul_comm]
    obtain ⟨u, rfl⟩ := Nat.exists_eq_succ_of_ne_zero (Nat.ne_of_gt hpos)
    refine ⟨BitVec.ofNat w (y / 2 ^ (w * u)), ?_, ?_⟩
    · unfold MpiNum.limbBelow
      rw [if_neg (by omega), Nat.succ_sub_one, MpiNum.limb_eq hval (by omega)]
    have hdiv : leadTwo w y (u + 1) = y / 2 ^ (w * u) := by
      unfold leadTwo
      rw [Nat.mul_succ, Nat.pow_add, Nat.mul_div_mul_right _ _ (Nat.two_pow_pos w)]
    rw [hdiv, BitVec.toNat_ofNat, Nat.succ_eq_add_one, Nat.mul_succ, Nat.pow_add,
      ← Nat.div_div_eq_div_mul, Nat.mod_add_div]
  obtain ⟨low, hlowEq, hlowVal⟩ := hlow
  refine .bindMpi fun T hset => ?_
  have hT := (of_mbedtlsMpiLset hset).2
  rw [hlowEq, MpiNum.limb_eq hval ht]
  show DivYields (if T.n < 2 then _ else _) _
  rw [if_neg (by omega)]
  apply DivYields.ofMpi
  intro T1' hT1'
  obtain ⟨hprod, hn⟩ := of_mbedtlsMpiMulInt hT1'
  refine ⟨?_, Nat.le_trans hT hn⟩
  rw [hprod, hhigh]
  rw [← hlowVal, Nat.mul_comm]
  push_cast
  ring

theorem divCorrectLoop_spec (hval : Y.val = y) (hy : y < 2 ^ (w * (t + 1))) (ht : t < Y.n)
    {P : List (BitVec w)} (hj : j < P.length) {T1 : MpiNum} (T2 : Nat) (z : BitVec w)
    (wrapped : Bool) (hT1 : 2 ≤ T1.n) (hwrapped : z + 1 = 0 → wrapped = true)
    (hfuel : z.toNat < fuel) :
    DivYields (divCorrectLoop Y t j T2 fuel wrapped T1 (P.set j (z + 1))) fun result =>
      T1.n ≤ result.1.n ∧ ∃ q : BitVec w, result.2 = P.set j q ∧
        q.toNat * leadTwo w y t ≤ T2 ∧
        ∀ m, m ≤ z.toNat → m * leadTwo w y t ≤ T2 → m ≤ q.toNat := by
  induction fuel generalizing z wrapped T1 with
  | zero => omega
  | succ fuel ih =>
    have hdec : decLimb (P.set j (z + 1)) j wrapped = .ok (P.set j z) := by
      unfold decLimb
      rw [getD_set_self hj, if_neg (by
        rintro ⟨hzero, hfalse⟩
        rw [hwrapped hzero] at hfalse
        exact absurd hfalse (by decide)), setLimb_eq (by simpa using hj), List.set_set,
        BitVec.add_sub_cancel]
    unfold divCorrectLoop
    rw [hdec]
    show DivYields (divLeadProduct Y t T1 ((P.set j z).getD j 0) >>= _) _
    rw [getD_set_self hj]
    apply DivYields.bind (divLeadProduct_spec hval hy ht hT1 z)
    rintro T ⟨hprod, hn⟩
    split
    · next hgt =>
      rw [hprod] at hgt
      have hgt' : T2 < z.toNat * leadTwo w y t := by exact_mod_cast hgt
      have hne : z.toNat ≠ 0 := by
        intro hzero
        rw [hzero, Nat.zero_mul] at hgt'
        omega
      have hsub : (z - 1).toNat = z.toNat - 1 := by
        have hwpos : 0 < w := by
          rcases Nat.eq_zero_or_pos w with rfl | hwpos
          · exact absurd (Nat.lt_one_iff.mp z.isLt) hne
          · exact hwpos
        have hone : (1 : BitVec w).toNat = 1 := BitVec.toNat_one hwpos
        rw [BitVec.toNat_sub_of_le, hone]
        rw [BitVec.le_def, hone]
        omega
      have hback : z - 1 + 1 = z := by ring
      have hrec := ih (z - 1) false (show 2 ≤ T.n by omega)
        (by
          rw [hback]
          rintro rfl
          exact absurd rfl hne) (by omega)
      rw [hback] at hrec
      apply DivYields.mono hrec
      rintro result ⟨hTn, q, hZ, hle, hmax⟩
      refine ⟨Nat.le_trans hn hTn, q, hZ, hle, ?_⟩
      intro m hm hmle
      apply hmax m _ hmle
      rw [hsub]
      rcases Nat.lt_or_ge m z.toNat with hlt | hge
      · omega
      · have heq : m = z.toNat := by omega
        rw [heq] at hmle
        omega
    · next hle =>
      rw [hprod, not_lt] at hle
      refine ⟨hn, z, rfl, by exact_mod_cast hle, ?_⟩
      intro m hm _
      exact hm

theorem leadThree_eq {x i : Nat} (hx : x < 2 ^ (w * (i + 2))) {x2 x1 x0 : BitVec w}
    (h2 : x2.toNat = x / 2 ^ (w * (i + 1))) (h1 : x1.toNat = x / 2 ^ (w * i) % 2 ^ w)
    (h0 : x0.toNat = if i = 0 then 0 else x / 2 ^ (w * (i - 1)) % 2 ^ w) :
    x0.toNat + 2 ^ w * (x1.toNat + 2 ^ w * x2.toNat) = x * 2 ^ w / 2 ^ (w * i) := by
  have htwo : x1.toNat + 2 ^ w * x2.toNat = x / 2 ^ (w * i) := by
    rw [h1, h2, Nat.mul_succ, Nat.pow_add, ← Nat.div_div_eq_div_mul, Nat.mod_add_div]
  rw [htwo, h0]
  rcases Nat.eq_zero_or_pos i with rfl | hpos
  · simp [Nat.mul_comm]
  · obtain ⟨u, rfl⟩ := Nat.exists_eq_succ_of_ne_zero (Nat.ne_of_gt hpos)
    rw [if_neg (Nat.succ_ne_zero u), Nat.succ_sub_one, Nat.succ_eq_add_one, Nat.mul_succ,
      Nat.pow_add, ← Nat.div_div_eq_div_mul, Nat.mod_add_div, ← Nat.pow_add, Nat.pow_add,
      Nat.mul_div_mul_right _ _ (Nat.two_pow_pos w)]

theorem divEstimate_spec (hw : w = 2 * biH w) (hpos : 0 < w) (udbl : Bool) (hfuel : 2 ≤ fuel)
    {x2 x1 yt : BitVec w} {digit : Nat} (hdigit : digit < 2 ^ w)
    (hle : digit ≤ (x2.toNat * 2 ^ w + x1.toNat) / yt.toNat) :
    DivYields (divEstimate udbl fuel x2 x1 yt) fun estimate => digit ≤ estimate.toNat := by
  unfold divEstimate
  split
  · show digit ≤ (~~~(0 : BitVec w)).toNat
    have hzero : (0 : BitVec w).toNat = 0 := rfl
    rw [BitVec.toNat_not, hzero]
    omega
  · next hlt =>
    have hlt' : x2 < yt := BitVec.not_le.mp hlt
    unfold mbedtlsIntDivInt
    rw [mbedtlsIntDivIntHalf_eq_udbl hw hpos x2 x1 yt hfuel]
    have hquot := (mbedtlsIntDivIntUdbl_eq x1 hlt').1
    cases udbl with
    | true =>
      show digit ≤ (mbedtlsIntDivIntUdbl x2 x1 yt).quotient.toNat
      rw [hquot]
      exact hle
    | false =>
      show digit ≤ (mbedtlsIntDivIntUdbl x2 x1 yt).quotient.toNat
      rw [hquot]
      exact hle

end Digit

/-! ## All digits -/

/-- Before the digit `i - 1`: the remainder of the digits above, and a quotient with zeros below
the digit `i - t`. -/
structure DivInv (y t i len : Nat) (total : Nat) (s : DivState w) (x : Nat) : Prop where
  val : s.X.val = x
  lt : x < y * 2 ^ (w * (i - t))
  X_n : i < s.X.n
  T1_n : 2 ≤ s.T1.n
  length : s.Z.length = len
  dvd : 2 ^ (w * (i - t)) ∣ value s.Z
  total : value s.Z * y + x = total
  digits : ∀ d ∈ s.digits, 0 ≤ d.rest

section Digits

variable {Y : MpiNum} {y t i len total x : Nat} {s : DivState w}

theorem value_set_of_dvd {e : Nat} (he : e < p.length) (hdvd : 2 ^ (w * (e + 1)) ∣ value p)
    (q : BitVec w) :
    value (p.set e q) = value p + 2 ^ (w * e) * q.toNat := by
  have hzero : (p.getD e 0#w).toNat = 0 := by
    obtain ⟨k, hk⟩ := hdvd
    rw [getD_toNat, hk, Nat.mul_succ, Nat.pow_add, Nat.mul_assoc,
      Nat.mul_div_cancel_left _ (Nat.two_pow_pos _), Nat.mul_mod_right]
  have hset := value_set he q
  rw [hzero, Nat.mul_zero, Nat.add_zero] at hset
  exact hset

theorem divDigit_spec (hw : w = 2 * biH w) (hpos : 0 < w) (udbl : Bool) (hfuel : 2 ^ w ≤ fuel)
    (hY : Y.val = y) (hYge : 2 ^ (w * t) ≤ y) (hYlt : y < 2 ^ (w * (t + 1))) (hYn : t < Y.n)
    (hti : t ≤ i) (hlen : i - t < len) (hinv : DivInv y t (i + 1) len total s x) :
    DivYields (divDigit udbl fuel Y t (i + 1) s) fun s' => ∃ x', DivInv y t i len total s' x' := by
  obtain ⟨e, rfl⟩ := Nat.exists_eq_add_of_le' hti
  have he : e + t + 1 - t = e + 1 := by omega
  have he' : e + t + 1 - t - 1 = e := by omega
  have he'' : e + t - t = e := by omega
  have hb : 0 < 2 ^ w := Nat.two_pow_pos w
  have hbtwo : 2 ≤ 2 ^ w := by
    have h := Nat.pow_le_pow_right (n := 2) (by decide) hpos
    simpa using h
  have hval := hinv.val
  have hlt := hinv.lt
  have hXn := hinv.X_n
  have hdvd := hinv.dvd
  have hlength := hinv.length
  rw [he] at hlt hdvd
  rw [he''] at hlen
  have helen : e < s.Z.length := by omega
  -- the digit
  have hpowe : 2 ^ (w * e) = (2 ^ w) ^ e := Nat.pow_mul 2 w e
  have hpowt : 2 ^ (w * t) = (2 ^ w) ^ t := Nat.pow_mul 2 w t
  have hpowet : 2 ^ (w * (e + t)) = (2 ^ w) ^ (e + t) := Nat.pow_mul 2 w (e + t)
  have hDpos : 0 < y * 2 ^ (w * e) :=
    Nat.mul_pos (Nat.lt_of_lt_of_le (Nat.two_pow_pos _) hYge) (Nat.two_pow_pos _)
  have hdigit : x / (y * 2 ^ (w * e)) < 2 ^ w := by
    rw [Nat.div_lt_iff_lt_mul hDpos]
    calc x < y * 2 ^ (w * (e + 1)) := hlt
      _ = 2 ^ w * (y * 2 ^ (w * e)) := by
          rw [Nat.mul_succ, Nat.pow_add]
          ring
  have hxlt : x < 2 ^ (w * (e + t + 2)) := by
    calc x < y * 2 ^ (w * (e + 1)) := hlt
      _ ≤ 2 ^ (w * (t + 1)) * 2 ^ (w * (e + 1)) := Nat.mul_le_mul_right _ (Nat.le_of_lt hYlt)
      _ = 2 ^ (w * (e + t + 2)) := by
          rw [← Nat.pow_add]
          congr 1
          ring
  have hlead : 0 < y / 2 ^ (w * t) := Nat.div_pos hYge (Nat.two_pow_pos _)
  have hytlt : y / 2 ^ (w * t) < 2 ^ w := by
    rw [Nat.div_lt_iff_lt_mul (Nat.two_pow_pos _), ← Nat.pow_add]
    rwa [Nat.mul_succ, Nat.add_comm] at hYlt
  have hx2lt : x / 2 ^ (w * (e + t + 1)) < 2 ^ w := by
    rw [Nat.div_lt_iff_lt_mul (Nat.two_pow_pos _), ← Nat.pow_add]
    have hexp : w + w * (e + t + 1) = w * (e + t + 2) := by ring
    rwa [hexp]
  unfold divDigit
  rw [MpiNum.limb_eq hval hXn, MpiNum.limb_eq hY hYn]
  have hlimb1 : s.X.limbBelow w (e + t + 1) 1 =
      .ok (BitVec.ofNat w (x / 2 ^ (w * (e + t)))) := by
    unfold MpiNum.limbBelow
    rw [if_neg (by omega), Nat.add_sub_cancel, MpiNum.limb_eq hval (by omega)]
  obtain ⟨x0, hlimb0, hx0⟩ : ∃ x0, s.X.limbBelow w (e + t + 1) 2 = .ok x0 ∧
      x0.toNat = if e + t = 0 then 0 else x / 2 ^ (w * (e + t - 1)) % 2 ^ w := by
    unfold MpiNum.limbBelow
    by_cases hzero : e + t = 0
    · refine ⟨0, ?_, ?_⟩
      · rw [if_pos (by omega)]
      · rw [if_pos hzero]
        rfl
    · refine ⟨BitVec.ofNat w (x / 2 ^ (w * (e + t - 1))), ?_, ?_⟩
      · rw [if_neg (by omega), MpiNum.limb_eq hval (by omega)]
        rfl
      · rw [if_neg hzero, BitVec.toNat_ofNat]
  rw [hlimb1, hlimb0, he']
  generalize hx2 : BitVec.ofNat w (x / 2 ^ (w * (e + t + 1))) = x2
  generalize hyt : BitVec.ofNat w (y / 2 ^ (w * t)) = yt
  generalize hx1 : BitVec.ofNat w (x / 2 ^ (w * (e + t))) = x1
  have hx2val : x2.toNat = x / 2 ^ (w * (e + t + 1)) := by
    rw [← hx2, BitVec.toNat_ofNat, Nat.mod_eq_of_lt hx2lt]
  have hytval : yt.toNat = y / 2 ^ (w * t) := by
    rw [← hyt, BitVec.toNat_ofNat, Nat.mod_eq_of_lt hytlt]
  have hx1val : x1.toNat = x / 2 ^ (w * (e + t)) % 2 ^ w := by
    rw [← hx1, BitVec.toNat_ofNat]
  have hestimate : x / (y * 2 ^ (w * e)) ≤ (x2.toNat * 2 ^ w + x1.toNat) / yt.toNat := by
    have hjoin : x2.toNat * 2 ^ w + x1.toNat = x / 2 ^ (w * (e + t)) := by
      rw [hx2val, hx1val, Nat.mul_succ, Nat.pow_add, ← Nat.div_div_eq_div_mul, Nat.mul_comm,
        Nat.div_add_mod]
    rw [hjoin, hytval, hpowe, hpowt, hpowet]
    exact digit_le_lead hb (by rwa [← hpowt])
  apply DivYields.bind (divEstimate_spec hw hpos udbl (by omega) hdigit hestimate)
  intro estimate hge
  rw [setLimb_eq helen]
  show DivYields (setLimb (s.Z.set e estimate) e _ >>= _) _
  rw [setLimb_eq (by simpa using helen), getD_set_self helen, List.set_set]
  show DivYields (divCorrectLoop Y t e _ fuel _ s.T1 (s.Z.set e (estimate + 1)) >>= _) _
  rw [getD_set_self helen]
  have hT2 : ((x0.toNat : Int) + 2 ^ w * (x1.toNat + 2 ^ w * x2.toNat)) =
      (x * 2 ^ w / 2 ^ (w * (e + t)) : Nat) := by
    rw [← leadThree_eq hxlt hx2val hx1val hx0]
    rfl
  rw [hT2]
  have hloop := divCorrectLoop_spec hY hYlt hYn helen (x * 2 ^ w / 2 ^ (w * (e + t))) estimate
    (decide (estimate + 1 = 0)) hinv.T1_n (fun h => by simpa using h)
    (Nat.lt_of_lt_of_le estimate.isLt hfuel)
  apply DivYields.bind hloop
  rintro ⟨T1, Z⟩ ⟨hT1n, q, hZ, hqle, hqmax⟩
  subst hZ
  -- the corrected estimate is the digit, or one more
  have hqge : x / (y * 2 ^ (w * e)) ≤ q.toNat := by
    apply hqmax _ hge
    unfold leadTwo
    rw [hpowe, hpowt, hpowet]
    exact digit_mul_two_le hb
  have hqsucc : q.toNat ≤ x / (y * 2 ^ (w * e)) + 1 := by
    unfold leadTwo at hqle
    rw [hpowt, hpowet] at hqle
    rw [hpowe]
    exact le_digit_succ hb (by rwa [← hpowt]) q.isLt hqle
  simp only [getD_set_self helen]
  refine .bindMpi fun T hT => .bindMpi fun T' hT' => ?_
  obtain ⟨hTval, hTn⟩ := of_mbedtlsMpiMulInt hT
  obtain ⟨hshift, hT'n⟩ := of_mbedtlsMpiShiftL hT'
  have hT'val : T'.val = (q.toNat * (y * 2 ^ (w * e)) : Nat) := by
    rw [hshift, hTval, hY]
    push_cast
    ring
  refine .bindMpi fun X hX => ?_
  obtain ⟨hXval, hXn', _⟩ := of_mbedtlsMpiSubMpi (by rw [hval]; exact Int.natCast_nonneg _)
    (by rw [hT'val]; exact Int.natCast_nonneg _) hX
  rw [hval, hT'val] at hXval
  obtain ⟨hsplit, hrest⟩ := digit_rest (X := x) (Y := y) (e := e) hb
    (Nat.pos_of_ne_zero (by rintro rfl; simp at hDpos))
  rw [← hpowe] at hsplit hrest
  have hvalue := value_set_of_dvd helen hdvd
  have hdvde : 2 ^ (w * e) ∣ value s.Z := by
    apply Nat.dvd_trans _ hdvd
    exact Nat.pow_dvd_pow 2 (Nat.mul_le_mul_left _ (Nat.le_succ e))
  -- the state after the digit
  have hdone : ∀ {q' : BitVec w} {s' : DivState w}, q'.toNat = x / (y * 2 ^ (w * e)) →
      s'.X.val = (x % (y * 2 ^ (w * e)) : Nat) → s.X.n ≤ s'.X.n → 2 ≤ s'.T1.n →
      s'.Z = s.Z.set e q' → (∀ d ∈ s'.digits, 0 ≤ d.rest) →
      ∃ x', DivInv y t (e + t) len total s' x' := by
    intro q' s' hq' hX' hn' hT1' hZ' hdigits'
    refine ⟨x % (y * 2 ^ (w * e)), hX', ?_, by omega, hT1', ?_, ?_, ?_, hdigits'⟩
    · rw [he'']
      exact hrest
    · rw [hZ', List.length_set, hlength]
    · rw [he'', hZ', hvalue]
      exact Nat.dvd_add hdvde (Nat.dvd_mul_right _ _)
    rw [hZ', hvalue, hq', ← hinv.total]
    calc (value s.Z + 2 ^ (w * e) * (x / (y * 2 ^ (w * e)))) * y + x % (y * 2 ^ (w * e))
        = value s.Z * y + (x / (y * 2 ^ (w * e)) * (y * 2 ^ (w * e)) +
            x % (y * 2 ^ (w * e))) := by ring
      _ = value s.Z * y + x := by rw [← hsplit]
  have hT'two : 2 ≤ T'.n := Nat.le_trans hinv.T1_n (Nat.le_trans hT1n (Nat.le_trans hTn hT'n))
  generalize hD : y * 2 ^ (w * e) = D at *
  generalize x / D = m at *
  generalize x % D = u at *
  rcases Nat.lt_or_ge (m) q.toNat with hover | hexact
  · -- one too many: the product is above the remainder
    have hq : q.toNat = m + 1 := by omega
    have hneg : X.val = u - (D : Int) := by
      rw [hXval, hq, Nat.succ_mul]
      have hcast : (x : Int) = (m * D : Nat) + u := by exact_mod_cast hsplit
      push_cast at hcast ⊢
      linarith
    rw [if_pos (by omega)]
    refine .bindMpi fun U hU => .bindMpi fun U' hU' => .bindMpi fun W hW => ?_
    obtain ⟨hUval, hUn⟩ := of_mbedtlsMpiCopy hU
    obtain ⟨hU'val, hU'n⟩ := of_mbedtlsMpiShiftL hU'
    have hU'D : U'.val = (D : Int) := by
      rw [hU'val, hUval, hY, ← hD]
      push_cast
      rfl
    obtain ⟨hWval, hWn⟩ := of_mbedtlsMpiAddMpi (by omega) (by omega) hW
    rw [hneg, hU'D, Int.sub_add_cancel] at hWval
    have hqne : q ≠ 0 := by
      rintro rfl
      have hzero : (0 : BitVec w).toNat = 0 := rfl
      omega
    have hdec : decLimb (s.Z.set e q) e false = .ok (s.Z.set e (q - 1)) := by
      unfold decLimb
      rw [getD_set_self helen, if_neg (fun h => hqne h.1), setLimb_eq (by simpa using helen),
        List.set_set]
    rw [hdec]
    have hqsub : (q - 1).toNat = m := by
      have hone : (1 : BitVec w).toNat = 1 := BitVec.toNat_one hpos
      rw [BitVec.toNat_sub_of_le, hone]
      · omega
      · rw [BitVec.le_def, hone]
        omega
    apply hdone hqsub hWval (by show s.X.n ≤ W.n; omega) (by show 2 ≤ U'.n; omega) rfl
    intro d hd
    rcases List.mem_append.mp hd with hold | hnew
    · exact hinv.digits d hold
    · rw [List.mem_singleton.mp hnew]
      show 0 ≤ W.val
      omega
  · -- the digit itself
    have hq : q.toNat = m := Nat.le_antisymm hexact hqge
    have hXrest : X.val = u := by
      rw [hXval, hq]
      have hcast : (x : Int) = (m * D : Nat) + u := by exact_mod_cast hsplit
      linarith
    rw [if_neg (by omega)]
    apply hdone hq hXrest hXn' hT'two rfl
    intro d hd
    rcases List.mem_append.mp hd with hold | hnew
    · exact hinv.digits d hold
    · rw [List.mem_singleton.mp hnew]
      show 0 ≤ X.val
      omega

theorem divDigitLoop_spec (hw : w = 2 * biH w) (hpos : 0 < w) (udbl : Bool) (hfuel : 2 ^ w ≤ fuel)
    (hY : Y.val = y) (hYge : 2 ^ (w * t) ≤ y) (hYlt : y < 2 ^ (w * (t + 1))) (hYn : t < Y.n)
    (hti : t ≤ i) (hlen : i - t ≤ len) (hinv : DivInv y t i len total s x) :
    DivYields (divDigitLoop udbl fuel Y t i s) fun s' => ∃ x', DivInv y t t len total s' x' := by
  induction i generalizing s x with
  | zero =>
    obtain rfl : t = 0 := by omega
    exact ⟨x, hinv⟩
  | succ i ih =>
    unfold divDigitLoop
    rcases Nat.lt_or_ge t (i + 1) with hlt | hge
    · rw [if_pos hlt]
      apply DivYields.bind (divDigit_spec hw hpos udbl hfuel hY hYge hYlt hYn (by omega)
        (by omega) hinv)
      rintro s' ⟨x', hinv'⟩
      exact ih (by omega) (by omega) hinv'
    · rw [if_neg (by omega)]
      obtain rfl : t = i + 1 := by omega
      exact ⟨x, hinv⟩

end Digits

/-! ## The whole division -/

theorem divLeadLoop_spec (hpos : 0 < w) {Y X : MpiNum} {d j : Nat}
    (hY : Y.val = (d * 2 ^ (w * j) : Nat)) (hd : 0 < d) {Z : List (BitVec w)} (hj : j < Z.length)
    (hdvd : 2 ^ (w * j) ∣ value Z) {x : Nat} (hX : X.val = x)
    (hfit : (Z.getD j 0).toNat + x / (d * 2 ^ (w * j)) < 2 ^ w)
    (hfuel : x / (d * 2 ^ (w * j)) < fuel) :
    DivYields (divLeadLoop Y j fuel X Z) fun result => ∃ x' : Nat, result.1.val = x' ∧
      x' < d * 2 ^ (w * j) ∧ X.n ≤ result.1.n ∧ result.2.length = Z.length ∧
        2 ^ (w * j) ∣ value result.2 ∧ value result.2 * d + x' = value Z * d + x := by
  have hD : 0 < d * 2 ^ (w * j) := Nat.mul_pos hd (Nat.two_pow_pos _)
  induction fuel generalizing X Z x with
  | zero => exact absurd hfuel (Nat.not_lt_zero _)
  | succ fuel ih =>
    unfold divLeadLoop
    rw [hX, hY]
    split
    · next hle =>
      have hle' : d * 2 ^ (w * j) ≤ x := by exact_mod_cast hle
      have hquot : x / (d * 2 ^ (w * j)) = (x - d * 2 ^ (w * j)) / (d * 2 ^ (w * j)) + 1 :=
        Nat.div_eq_sub_div hD hle'
      obtain ⟨m, hm⟩ : ∃ m, m = (x - d * 2 ^ (w * j)) / (d * 2 ^ (w * j)) := ⟨_, rfl⟩
      rw [hquot, ← hm] at hfit hfuel
      have hz : (Z.getD j 0 + 1).toNat = (Z.getD j 0).toNat + 1 := by
        have hone : (1 : BitVec w).toNat = 1 := BitVec.toNat_one hpos
        rw [BitVec.toNat_add, hone, Nat.mod_eq_of_lt (by omega)]
      have hset : value (Z.set j (Z.getD j 0 + 1)) = value Z + 2 ^ (w * j) := by
        have h := value_set hj (Z.getD j 0 + 1)
        rw [hz, Nat.mul_succ] at h
        have hsame : (Z.getD j 0#w).toNat = (Z.getD j 0).toNat := rfl
        rw [hsame] at h
        omega
      have hj' : j < (Z.set j (Z.getD j 0 + 1)).length := by simpa using hj
      rw [setLimb_eq hj]
      refine .bindMpi fun X' hsub => ?_
      · obtain ⟨hX', hn, _⟩ := of_mbedtlsMpiSubMpi (by omega) (by omega) hsub
        replace hX' : X'.val = (x - d * 2 ^ (w * j) : Nat) := by omega
        have hrec := ih (Z := Z.set j (Z.getD j 0 + 1)) (x := x - d * 2 ^ (w * j)) hj'
          (by
            rw [hset]
            exact Nat.dvd_add hdvd (Nat.dvd_refl _)) hX'
          (by
            rw [getD_set_self hj, hz, ← hm]
            omega)
          (by
            rw [← hm]
            omega)
        apply DivYields.mono hrec
        rintro result ⟨x', hval, hlt, hn', hlen, hdvd', htotal⟩
        refine ⟨x', hval, hlt, Nat.le_trans hn hn', ?_, hdvd', ?_⟩
        · rw [hlen, List.length_set]
        · rw [htotal, hset, Nat.add_mul, Nat.mul_comm (2 ^ (w * j))]
          omega
    · next hlt =>
      have hlt' : x < d * 2 ^ (w * j) := by
        rw [Int.not_le] at hlt
        exact_mod_cast hlt
      exact ⟨x, hX, hlt', Nat.le_refl _, rfl, hdvd, rfl⟩

theorem divNormalise_spec (hw : 0 < w) {X : MpiNum} {k : Nat} (hv : v ≠ 0) (hval : X.val = v)
    (hn : X.n = limbCount w v) :
    DivYields (divNormalise w X k) fun Z =>
      Z.val = (v * 2 ^ k : Nat) ∧ Z.n = limbCount w (v * 2 ^ k : Nat) := by
  unfold divNormalise
  split
  · next hzero =>
    subst hzero
    simp only [Nat.pow_zero, Nat.mul_one]
    exact ⟨hval, hn⟩
  · exact DivYields.ofMpi fun Z hZ => mbedtlsMpiShiftL_n hw hv hval hn hZ

theorem size_normalised (hw : 1 < w) {b : Nat} (hb : b ≠ 0) :
    (b * 2 ^ divShift w b).size = w * (limbCount w (b * 2 ^ divShift w b : Nat) - 1) + (w - 1) ∧
      0 < limbCount w (b * 2 ^ divShift w b : Nat) := by
  have hsize : (b * 2 ^ divShift w b).size = b.size + divShift w b := by
    have hshift := size_add_mul_two_pow (Nat.two_pow_pos (divShift w b)) hb
    rw [Nat.zero_add, Nat.mul_comm] at hshift
    rw [hshift, Nat.add_comm]
  have hsplit := Nat.div_add_mod b.size w
  have hmod := Nat.mod_lt b.size (show 0 < w by omega)
  have hmul : b.size + divShift w b = w * (b.size / w) + (w - 1) := by
    unfold divShift
    split <;> omega
  have hcount : limbCount w (b * 2 ^ divShift w b : Nat) = b.size / w + 1 := by
    unfold limbCount
    rw [Int.natAbs_natCast, hsize, hmul]
    apply Nat.div_eq_of_lt_le
    · rw [Nat.succ_mul, Nat.mul_comm]
      omega
    · rw [Nat.succ_mul, Nat.succ_mul, Nat.mul_comm]
      omega
  rw [hcount, hsize, hmul, Nat.add_sub_cancel]
  exact ⟨rfl, Nat.succ_pos _⟩

theorem divAbs_spec (hw : w = 2 * biH w) (hpos : 0 < w) (udbl : Bool) (hfuel : 2 ^ w ≤ fuel)
    {A B : MpiNum} (hB : B.val ≠ 0) (hle : B.val.natAbs ≤ A.val.natAbs)
    (hAn : limbCount w A.val ≤ A.n) (hBn : limbCount w B.val ≤ B.n) :
    DivYields (divAbs w udbl fuel A B) fun result =>
      value result.Z = A.val.natAbs / B.val.natAbs ∧
        result.X.val = (A.val.natAbs % B.val.natAbs * 2 ^ result.k : Nat) ∧
        ∀ d ∈ result.digits, 0 ≤ d.rest := by
  have hwtwo : 1 < w := by omega
  have hb0 : B.val.natAbs ≠ 0 := Int.natAbs_ne_zero.mpr hB
  have ha0 : A.val.natAbs ≠ 0 := by omega
  have habs : ∀ v : Int, limbCount w (v.natAbs : Int) = limbCount w v := by
    intro v
    unfold limbCount
    rw [Int.natAbs_natCast]
  have hAlt := (limbCount_le hpos).mp hAn
  generalize ha : A.val.natAbs = a at *
  generalize hb : B.val.natAbs = b at *
  obtain ⟨hsize, hcount⟩ := size_normalised hwtwo hb0
  have hk : divShift w b ≤ w - 1 := by
    unfold divShift
    split <;> omega
  unfold divAbs
  rw [ha, hb]
  refine .bindMpi fun X hX => .bindMpi fun Y hY => ?_
  obtain ⟨hXval, hXn⟩ := mbedtlsMpiCopy_n ha0 hpos (by rw [← ha, habs]; exact hAn) hX
  obtain ⟨hYval, hYn⟩ := mbedtlsMpiCopy_n hb0 hpos (by rw [← hb, habs]; exact hBn) hY
  refine .bindMpi fun Z0 hZ => .bindMpi fun T1 hT => ?_
  have hZ0 : Z0.n = A.n + 2 := by
    rw [MpiNum.eq_of_grow hZ]
    exact Nat.max_eq_right (Nat.zero_le _)
  have hT1 : T1.n = A.n + 2 := by
    rw [MpiNum.eq_of_grow hT]
    exact Nat.max_eq_right (Nat.zero_le _)
  rw [hYval, Int.natAbs_natCast]
  generalize hkdef : divShift w b = k at *
  apply DivYields.bind (divNormalise_spec hpos ha0 hXval hXn)
  rintro X' ⟨hX'val, hX'n⟩
  apply DivYields.bind (divNormalise_spec hpos hb0 hYval hYn)
  rintro Y' ⟨hY'val, hY'n⟩
  -- the normalised divisor, and the lengths of both
  have hyge : 2 ^ (w * (limbCount w (b * 2 ^ k : Nat) - 1) + (w - 2)) ≤ b * 2 ^ k := by
    apply Nat.lt_size.mp
    omega
  have hylt : b * 2 ^ k < 2 ^ (w * (limbCount w (b * 2 ^ k : Nat) - 1 + 1)) := by
    apply Nat.size_le.mp
    rw [hsize, Nat.mul_succ]
    omega
  have hxlt : a * 2 ^ k < 2 ^ (w * limbCount w (a * 2 ^ k : Nat)) := by
    have h := (limbCount_le (v := ((a * 2 ^ k : Nat) : Int)) hpos).mp (Nat.le_refl _)
    rwa [Int.natAbs_natCast] at h
  have hnle : limbCount w (a * 2 ^ k : Nat) ≤ A.n + 1 := by
    rw [limbCount_le hpos, Int.natAbs_natCast, Nat.mul_succ, Nat.pow_add]
    exact Nat.mul_lt_mul'' hAlt (Nat.pow_lt_pow_right (by decide) (by omega))
  have htn : limbCount w (b * 2 ^ k : Nat) ≤ limbCount w (a * 2 ^ k : Nat) := by
    apply limbCount_mono hpos
    rw [Int.natAbs_natCast, Int.natAbs_natCast]
    exact Nat.mul_le_mul_right _ hle
  have hypos : 0 < b * 2 ^ k := Nat.mul_pos (Nat.pos_of_ne_zero hb0) (Nat.two_pow_pos k)
  have hX'n' : X'.n - 1 + 1 = limbCount w (a * 2 ^ k : Nat) := by omega
  have hY'n' : Y'.n - 1 + 1 = limbCount w (b * 2 ^ k : Nat) := by omega
  rw [← hX'n'] at hxlt
  rw [← hY'n'] at hylt hyge
  rw [Nat.add_sub_cancel] at hylt hyge
  generalize hn : X'.n - 1 = n at *
  generalize ht : Y'.n - 1 = t at *
  generalize hy : b * 2 ^ k = y at *
  generalize hx : a * 2 ^ k = x at *
  have htn' : t ≤ n := by omega
  have hyget : 2 ^ (w * t) ≤ y :=
    Nat.le_trans (Nat.pow_le_pow_right (by decide) (Nat.le_add_right _ _)) hyge
  refine .bindMpi fun Y'' hY'' => ?_
  obtain ⟨hshift, hnn⟩ := of_mbedtlsMpiShiftL hY''
  have hY''n : t < Y''.n := by omega
  have hY''val : Y''.val = (y * 2 ^ (w * (n - t)) : Nat) := by
    rw [hshift, hY'val]
    push_cast
    rfl
  -- the highest digit is at most 3
  have hfew : x / (y * 2 ^ (w * (n - t))) < 4 := by
    rw [Nat.div_lt_iff_lt_mul (Nat.mul_pos hypos (Nat.two_pow_pos _))]
    calc x < 2 ^ (w * (n + 1)) := hxlt
      _ = 4 * (2 ^ (w * t + (w - 2)) * 2 ^ (w * (n - t))) := by
          have hfour : 4 = 2 ^ 2 := rfl
          have hexp : w * (n + 1) = 2 + (w * t + (w - 2) + w * (n - t)) := by
            obtain ⟨m, rfl⟩ := Nat.exists_eq_add_of_le htn'
            rw [Nat.add_sub_cancel_left, Nat.mul_succ, Nat.mul_add]
            omega
          rw [hfour, ← Nat.pow_add, ← Nat.pow_add, hexp]
      _ ≤ 4 * (y * 2 ^ (w * (n - t))) := Nat.mul_le_mul_left _ (Nat.mul_le_mul_right _ hyge)
  have hfour : 4 ≤ 2 ^ w := by
    have h := Nat.pow_le_pow_right (n := 2) (by decide) hwtwo
    simpa using h
  have hj : n - t < (List.replicate Z0.n (0#w)).length := by
    rw [List.length_replicate, hZ0]
    omega
  have hzeros : value (List.replicate Z0.n (0#w)) = 0 := value_replicate_zero _
  apply DivYields.bind (divLeadLoop_spec hpos hY''val hypos (Z := List.replicate Z0.n 0) hj
    (by
      show _ ∣ value (List.replicate Z0.n (0#w))
      rw [hzeros]
      exact Nat.dvd_zero _) hX'val
    (by
      have hzero : ((List.replicate Z0.n (0 : BitVec w)).getD (n - t) 0).toNat = 0 := by
        show ((List.replicate Z0.n (0#w)).getD (n - t) 0#w).toNat = 0
        rw [getD_toNat, hzeros, Nat.zero_div, Nat.zero_mod]
      omega) (by omega))
  rintro ⟨X2, Z⟩ ⟨x', hX2val, hx'lt, hX2n, hZlen, hZdvd, htotal⟩
  simp only at hX2val hX2n hZlen hZdvd htotal ⊢
  have htotal' : value Z * y + x' = x := by
    have hzero : value (List.replicate Z0.n (0 : BitVec w)) = 0 := hzeros
    rw [htotal, hzero, Nat.zero_mul, Nat.zero_add]
  have hback : (mbedtlsMpiShiftR Y'' (w * (n - t))).val = y := by
    show Y''.val.tdiv (2 ^ (w * (n - t))) = y
    rw [hY''val]
    have hpow : ((2 : Int) ^ (w * (n - t))) ≠ 0 := by positivity
    push_cast
    exact Int.mul_tdiv_cancel _ hpow
  have hstart : DivInv y t n Z.length x
      { X := X2, T1 := T1, Z := Z, digits := [] } x' := by
    refine ⟨hX2val, hx'lt, ?_, ?_, rfl, hZdvd, htotal', ?_⟩
    · show n < X2.n
      omega
    · show 2 ≤ T1.n
      omega
    · intro d hd
      exact absurd hd (by simp)
  apply DivYields.bind (divDigitLoop_spec hw hpos udbl hfuel hback hyget hylt
    (show t < (mbedtlsMpiShiftR Y'' (w * (n - t))).n from hY''n) htn'
    (by rw [hZlen]; exact Nat.le_of_lt hj) hstart)
  rintro s' ⟨r, hinv⟩
  have hrlt := hinv.lt
  have hrtotal := hinv.total
  rw [Nat.sub_self, Nat.mul_zero, Nat.pow_zero, Nat.mul_one] at hrlt
  have hquot : value s'.Z = x / y := by
    rw [← hrtotal, Nat.mul_comm, Nat.mul_add_div hypos, Nat.div_eq_of_lt hrlt, Nat.add_zero]
  have hrem : r = x % y := by
    rw [← hrtotal, Nat.mul_comm, Nat.mul_add_mod, Nat.mod_eq_of_lt hrlt]
  refine ⟨?_, ?_, hinv.digits⟩
  · show value s'.Z = a / b
    rw [hquot, ← hx, ← hy, Nat.mul_div_mul_right _ _ (Nat.two_pow_pos k)]
  · show s'.X.val = (a % b * 2 ^ k : Nat)
    rw [hinv.val, hrem, ← hx, ← hy, Nat.mul_mod_mul_right]

/-! ## Quotient and remainder in their cells -/

section Cells

variable {V : Type} [DecidableEq V] {mem : V → MpiNum}

/-- What the division leaves in `Q` and `R`; the other cells keep their numbers. -/
structure DivPost (mem mem' : V → MpiNum) (Q R : Option V) (A B : V) : Prop where
  quotient : ∀ q, Q = some q → (mem' q).val = (mem A).val.tdiv (mem B).val
  remainder : ∀ r, R = some r → (mem' r).val = (mem A).val.tmod (mem B).val
  frame : ∀ v, Q ≠ some v → R ≠ some v → mem' v = mem v

theorem lsetCell_spec (mem : V → MpiNum) (Q : Option V) :
    DivYields (lsetCell mem Q) fun mem' => (∀ q, Q = some q → (mem' q).val = 0) ∧
      ∀ v, Q ≠ some v → mem' v = mem v := by
  cases Q with
  | none => exact ⟨fun q h => (Option.some_ne_none q h.symm).elim, fun _ _ => rfl⟩
  | some q =>
    refine .bindMpi fun X hset => ?_
    have hX := (of_mbedtlsMpiLset hset).1
    refine ⟨?_, ?_⟩
    · rintro q' ⟨⟩
      rw [Function.update_self, hX]
    · intro v hv
      exact Function.update_of_ne (fun h => hv (congrArg some h.symm)) _ _

theorem copyCell_spec (mem : V → MpiNum) (R : Option V) (A : V) :
    DivYields (copyCell w mem R A) fun mem' => (∀ r, R = some r → (mem' r).val = (mem A).val) ∧
      ∀ v, R ≠ some v → mem' v = mem v := by
  cases R with
  | none => exact ⟨fun r h => (Option.some_ne_none r h.symm).elim, fun _ _ => rfl⟩
  | some r =>
    unfold copyCell
    simp only
    split
    · next heq =>
      subst heq
      refine ⟨?_, fun _ _ => rfl⟩
      rintro r' ⟨⟩
      rfl
    · refine .bindMpi fun X hcopy => ?_
      have hX := (of_mbedtlsMpiCopy hcopy).1
      refine ⟨?_, ?_⟩
      · rintro r' ⟨⟩
        rw [Function.update_self, hX]
      · intro v hv
        exact Function.update_of_ne (fun h => hv (congrArg some h.symm)) _ _

theorem storeQuotient_spec (mem : V → MpiNum) {Q : Option V} {A B : V} (hA : Q ≠ some A)
    (hB : Q ≠ some B) (Z : List (BitVec w)) :
    DivYields (storeQuotient mem Q A B Z) fun mem' =>
      (∀ q, Q = some q → (mem' q).val = (mem A).s * (mem B).s * value Z) ∧
        ∀ v, Q ≠ some v → mem' v = mem v := by
  cases Q with
  | none => exact ⟨fun q h => (Option.some_ne_none q h.symm).elim, fun _ _ => rfl⟩
  | some q =>
    have hA' : A ≠ q := fun h => hA (congrArg some h.symm)
    have hB' : B ≠ q := fun h => hB (congrArg some h.symm)
    refine .bindMpi fun X hcopy => ?_
    have hX : X.val = value Z := (of_mbedtlsMpiCopy hcopy).1
    refine ⟨?_, ?_⟩
    · rintro q' ⟨⟩
      rw [Function.update_self, Function.update_of_ne hA', Function.update_of_ne hB', hX]
    · intro v hv
      have hne : v ≠ q := fun h => hv (congrArg some h.symm)
      rw [Function.update_of_ne hne, Function.update_of_ne hne]

theorem storeRemainder_spec (mem : V → MpiNum) (R : Option V) (A : V) {X : MpiNum} {x k : Nat}
    (hX : X.val = (x * 2 ^ k : Nat)) :
    DivYields (storeRemainder w mem R A X k) fun mem' =>
      (∀ r, R = some r → (mem' r).val = (mem A).s * x) ∧ ∀ v, R ≠ some v → mem' v = mem v := by
  cases R with
  | none => exact ⟨fun r h => (Option.some_ne_none r h.symm).elim, fun _ _ => rfl⟩
  | some r =>
    have hshift : (mbedtlsMpiShiftR X k).val = x := by
      have hpow : ((2 : Int) ^ k) ≠ 0 := by positivity
      show X.val.tdiv (2 ^ k) = x
      rw [hX]
      push_cast
      exact Int.mul_tdiv_cancel _ hpow
    refine .bindMpi fun X' hcopy => ?_
    have hX' := (of_mbedtlsMpiCopy hcopy).1
    rw [hshift] at hX'
    · refine ⟨?_, ?_⟩
      · rintro r' ⟨⟩
        rw [Function.update_self, hX']
      · intro v hv
        exact Function.update_of_ne (fun h => hv (congrArg some h.symm)) _ _

theorem MpiNum.s_mul_natAbs (X : MpiNum) : X.s * X.val.natAbs = X.val := by
  unfold MpiNum.s
  split <;> omega

theorem MpiNum.sign_cases (X : MpiNum) :
    X.s = 1 ∧ X.val = X.val.natAbs ∨ X.s = -1 ∧ X.val = -(X.val.natAbs : Int) := by
  unfold MpiNum.s
  split
  · right
    omega
  · left
    omega

theorem MpiNum.tdiv_eq (X Y : MpiNum) :
    X.s * Y.s * (X.val.natAbs / Y.val.natAbs : Nat) = X.val.tdiv Y.val := by
  have hnat : ((X.val.natAbs / Y.val.natAbs : Nat) : Int) =
      (X.val.natAbs : Int).tdiv Y.val.natAbs := rfl
  rcases X.sign_cases with ⟨hs, hX⟩ | ⟨hs, hX⟩ <;> rcases Y.sign_cases with ⟨ht, hY⟩ | ⟨ht, hY⟩ <;>
    rw [hs, ht, hnat] <;> conv_rhs => rw [hX, hY]
  · simp
  · simp [Int.tdiv_neg]
  · simp [Int.neg_tdiv]
  · simp [Int.neg_tdiv, Int.tdiv_neg]

theorem MpiNum.tmod_eq (X Y : MpiNum) :
    X.s * (X.val.natAbs % Y.val.natAbs : Nat) = X.val.tmod Y.val := by
  have hnat : ((X.val.natAbs % Y.val.natAbs : Nat) : Int) =
      (X.val.natAbs : Int).tmod Y.val.natAbs := rfl
  rcases X.sign_cases with ⟨hs, hX⟩ | ⟨hs, hX⟩ <;> rcases Y.sign_cases with ⟨_, hY⟩ | ⟨_, hY⟩ <;>
    rw [hs, hnat] <;> conv_rhs => rw [hX, hY]
  · simp
  · simp [Int.tmod_neg]
  · simp [Int.neg_tmod]
  · simp [Int.neg_tmod, Int.tmod_neg]

theorem mbedtlsMpiDivMpi_spec (hw : w = 2 * biH w) (hpos : 0 < w) (udbl : Bool)
    (hfuel : 2 ^ w ≤ fuel) {Q R : Option V} {A B : V} (hA : Q ≠ some A) (hB : Q ≠ some B)
    (hQR : ∀ v, Q = some v → R ≠ some v) (hAn : limbCount w (mem A).val ≤ (mem A).n)
    (hBn : limbCount w (mem B).val ≤ (mem B).n) :
    DivYields (mbedtlsMpiDivMpi w udbl fuel mem Q R A B) fun result =>
      (mem B).val ≠ 0 ∧ DivPost mem result.1 Q R A B ∧ ∀ d ∈ result.2, 0 ≤ d.rest := by
  unfold mbedtlsMpiDivMpi
  split
  · exact trivial
  next hB0 =>
  split
  · next hlt =>
    apply DivYields.bind (lsetCell_spec mem Q)
    rintro mem1 ⟨hq, hframe⟩
    apply DivYields.bind (copyCell_spec mem1 R A)
    rintro mem2 ⟨hr, hframe2⟩
    refine ⟨hB0, ⟨?_, ?_, ?_⟩, ?_⟩
    · intro q hQ
      show (mem2 q).val = _
      rw [hframe2 q (hQR q hQ), hq q hQ, ← MpiNum.tdiv_eq, Nat.div_eq_of_lt hlt]
      simp
    · intro r hR
      rw [hr r hR, hframe A hA, ← MpiNum.tmod_eq, Nat.mod_eq_of_lt hlt, MpiNum.s_mul_natAbs]
    · intro v hQ hR
      show mem2 v = _
      rw [hframe2 v hR, hframe v hQ]
    · intro d hd
      exact absurd hd (by simp)
  · next hge =>
    apply DivYields.bind (divAbs_spec hw hpos udbl hfuel hB0 (Nat.not_lt.mp hge) hAn hBn)
    rintro result ⟨hquot, hrem, hdigits⟩
    apply DivYields.bind (storeQuotient_spec mem hA hB result.Z)
    rintro mem1 ⟨hq, hframe⟩
    apply DivYields.bind (storeRemainder_spec mem1 R A hrem)
    rintro mem2 ⟨hr, hframe2⟩
    refine ⟨hB0, ⟨?_, ?_, ?_⟩, hdigits⟩
    · intro q hQ
      show (mem2 q).val = _
      rw [hframe2 q (hQR q hQ), hq q hQ, hquot, MpiNum.tdiv_eq]
    · intro r hR
      rw [hr r hR, hframe A hA, MpiNum.tmod_eq]
    · intro v hQ hR
      show mem2 v = _
      rw [hframe2 v hR, hframe v hQ]

/-! ## The remainder that is not negative -/

theorem neg_lt_tmod {b : Int} (a : Int) (hb : 0 < b) : -b < a.tmod b := by
  have habs : (a.tmod b).natAbs < b.natAbs := by
    rw [Int.natAbs_tmod]
    exact Nat.mod_lt _ (by omega)
  omega

theorem emod_of_tmod {a b : Int} (hb : 0 < b) :
    a % b = if a.tmod b < 0 then a.tmod b + b else a.tmod b := by
  have hsplit := Int.mul_tdiv_add_tmod a b
  have hlt := Int.tmod_lt_of_pos a hb
  have hgt := neg_lt_tmod a hb
  have hmod : a % b = a.tmod b % b := by
    conv_lhs => rw [← hsplit, Int.mul_add_emod_self_left]
  rw [hmod]
  split
  · rw [← Int.add_emod_right]
    exact Int.emod_eq_of_lt (by omega) (by omega)
  · exact Int.emod_eq_of_lt (by omega) hlt

theorem mbedtlsMpiModMpiCells_spec (hw : w = 2 * biH w) (hpos : 0 < w) (udbl : Bool)
    (hfuel : 2 ^ w ≤ fuel) {R A B : V} (hRB : R ≠ B) (hB : 0 < (mem B).val)
    (hAn : limbCount w (mem A).val ≤ (mem A).n) (hBn : limbCount w (mem B).val ≤ (mem B).n) :
    DivYields (mbedtlsMpiModMpiCells w udbl fuel mem R A B) fun mem' =>
      (mem' R).val = (mem A).val % (mem B).val ∧ ∀ v, v ≠ R → mem' v = mem v := by
  have hpow : 2 ≤ 2 ^ w := by
    have h := Nat.pow_le_pow_right (n := 2) (by decide) hpos
    simpa using h
  obtain ⟨fuel, rfl⟩ := Nat.exists_eq_add_of_le' (Nat.le_trans hpow hfuel)
  have hgt := neg_lt_tmod (mem A).val hB
  have hemod := emod_of_tmod (a := (mem A).val) hB
  unfold mbedtlsMpiModMpiCells
  rw [if_neg (by omega)]
  apply DivYields.bind (mbedtlsMpiDivMpi_spec hw hpos udbl hfuel (Q := none) (R := some R)
    (fun h => (Option.some_ne_none A h.symm).elim) (fun h => (Option.some_ne_none B h.symm).elim)
    (fun v h => (Option.some_ne_none v h.symm).elim) hAn hBn)
  rintro ⟨mem1, digits⟩ ⟨_, hpost, _⟩
  have hR : (mem1 R).val = (mem A).val.tmod (mem B).val := hpost.remainder R rfl
  have hframe : ∀ v, v ≠ R → mem1 v = mem v := by
    intro v hv
    exact hpost.frame v (fun h => (Option.some_ne_none v h.symm).elim)
      (fun h => hv (Option.some.inj h).symm)
  have hB1 : mem1 B = mem B := hframe B hRB.symm
  -- at most one addition
  refine DivYields.bind (P := fun mem2 : V → MpiNum =>
    (mem2 R).val = (mem A).val % (mem B).val ∧ ∀ v, v ≠ R → mem2 v = mem v) ?_ ?_
  · unfold modNegLoop
    split
    · next hneg =>
      rw [hR] at hneg
      rw [if_pos hneg] at hemod
      refine .bindMpi fun X hadd => ?_
      have hX := (of_mbedtlsMpiAddMpi (by omega) (by rw [hB1]; omega) hadd).1
      rw [hR, hB1, ← hemod] at hX
      · unfold modNegLoop
        rw [Function.update_self, if_neg (by omega)]
        refine ⟨by rw [Function.update_self, hX], ?_⟩
        intro v hv
        rw [Function.update_of_ne hv, hframe v hv]
    · next hnonneg =>
      rw [hR] at hnonneg
      rw [if_neg hnonneg] at hemod
      exact ⟨by rw [hR, hemod], hframe⟩
  · rintro mem2 ⟨hR2, hframe2⟩
    have hsmall := Int.emod_lt_of_pos (mem A).val hB
    unfold modReduceLoop
    rw [hframe2 B hRB.symm, if_neg (by omega)]
    exact ⟨hR2, hframe2⟩

end Cells

/-- Quotient and remainder are those of the operands, for any aliasing of the remainder, and what
the digits leave is not negative; the residue is the least one. -/
theorem mbedtlsMpiDivMpi_correct (hw : w = 2 * biH w) (hpos : 0 < w) {fuel : Nat}
    (hfuel : 2 ^ w ≤ fuel) :
    (∀ u1 u0 d : BitVec w,
      mbedtlsIntDivIntHalf fuel u1 u0 d = some (mbedtlsIntDivIntUdbl u1 u0 d)) ∧
    (∀ (V : Type) [DecidableEq V] (udbl : Bool) (mem : V → MpiNum) (Q R : Option V) (A B : V),
      Q ≠ some A → Q ≠ some B → (∀ v, Q = some v → R ≠ some v) →
      limbCount w (mem A).val ≤ (mem A).n → limbCount w (mem B).val ≤ (mem B).n →
      (mem B).val ≠ 0 →
      DivYields (mbedtlsMpiDivMpi w udbl fuel mem Q R A B) fun result =>
        ∃ q r : Int, (mem A).val = q * (mem B).val + r ∧ r.natAbs < (mem B).val.natAbs ∧
          (r = 0 ∨ r.sign = (mem A).val.sign) ∧ (∀ v, Q = some v → (result.1 v).val = q) ∧
          (∀ v, R = some v → (result.1 v).val = r) ∧
          (∀ v, Q ≠ some v → R ≠ some v → result.1 v = mem v) ∧
          ∀ d ∈ result.2, 0 ≤ d.rest) ∧
    ∀ (V : Type) [DecidableEq V] (udbl : Bool) (mem : V → MpiNum) (R A B : V), R ≠ B →
      limbCount w (mem A).val ≤ (mem A).n → limbCount w (mem B).val ≤ (mem B).n →
      0 < (mem B).val →
      DivYields (mbedtlsMpiModMpiCells w udbl fuel mem R A B) fun mem' =>
        (mem' R).val = (mem A).val % (mem B).val ∧ 0 ≤ (mem' R).val ∧
          (mem' R).val < (mem B).val ∧ ∀ v, v ≠ R → mem' v = mem v := by
  refine ⟨?_, ?_, ?_⟩
  · intro u1 u0 d
    apply mbedtlsIntDivIntHalf_eq_udbl hw hpos
    have hpow : 2 ≤ 2 ^ w := by
      have h := Nat.pow_le_pow_right (n := 2) (by decide) hpos
      simpa using h
    exact Nat.le_trans hpow hfuel
  · intro V _ udbl mem Q R A B hA hB hQR hAn hBn hB0
    apply DivYields.mono (mbedtlsMpiDivMpi_spec hw hpos udbl hfuel hA hB hQR hAn hBn)
    rintro result ⟨_, hpost, hdigits⟩
    refine ⟨(mem A).val.tdiv (mem B).val, (mem A).val.tmod (mem B).val, ?_, ?_, ?_,
      hpost.quotient, hpost.remainder, hpost.frame, hdigits⟩
    · rw [Int.mul_comm, Int.mul_tdiv_add_tmod]
    · rw [Int.natAbs_tmod]
      exact Nat.mod_lt _ (Int.natAbs_pos.mpr hB0)
    · rcases Int.lt_trichotomy ((mem A).val.tmod (mem B).val) 0 with hneg | hzero | hpos'
      · right
        have hAneg : (mem A).val < 0 := by
          by_contra hge
          have h := Int.tmod_nonneg (mem B).val (Int.not_lt.mp hge)
          omega
        rw [Int.sign_eq_neg_one_of_neg hneg, Int.sign_eq_neg_one_of_neg hAneg]
      · exact Or.inl hzero
      · right
        have hApos : 0 < (mem A).val := by
          by_contra hle
          have h := Int.tmod_nonneg (mem B).val (show 0 ≤ -(mem A).val by omega)
          rw [Int.neg_tmod] at h
          omega
        rw [Int.sign_eq_one_of_pos hpos', Int.sign_eq_one_of_pos hApos]
  · intro V _ udbl mem R A B hRB hAn hBn hB0
    apply DivYields.mono (mbedtlsMpiModMpiCells_spec hw hpos udbl hfuel hRB hB0 hAn hBn)
    rintro mem' ⟨hR, hframe⟩
    refine ⟨hR, ?_, ?_, hframe⟩
    · rw [hR]
      exact Int.emod_nonneg _ (Int.ne_of_gt hB0)
    · rw [hR]
      exact Int.emod_lt_of_pos _ hB0

def divCells (a b : MpiNum) : Fin 4 → MpiNum :=
  fun v => if v = 0 then a else if v = 1 then b else .init

theorem mbedtlsMpiDivMpi_correct_limb64 :
    (mbedtlsIntDivIntHalf (2 ^ 64) (1 : BitVec 64) 5 7 = some (mbedtlsIntDivIntUdbl 1 5 7)) ∧
    (DivYields (mbedtlsMpiDivMpi 64 true (2 ^ 64) (divCells ⟨-100, 2⟩ ⟨7, 1⟩) (some 2) (some 0) 0 1)
      fun result => ∃ q r : Int, -100 = q * 7 + r ∧ r.natAbs < 7 ∧
        (r = 0 ∨ r.sign = Int.sign (-100)) ∧
        (∀ v, some (2 : Fin 4) = some v → (result.1 v).val = q) ∧
        (∀ v, some (0 : Fin 4) = some v → (result.1 v).val = r) ∧
        (∀ v, some (2 : Fin 4) ≠ some v → some 0 ≠ some v →
          result.1 v = divCells ⟨-100, 2⟩ ⟨7, 1⟩ v) ∧ ∀ d ∈ result.2, 0 ≤ d.rest) ∧
    DivYields (mbedtlsMpiModMpiCells 64 false (2 ^ 64) (divCells ⟨-100, 2⟩ ⟨7, 1⟩) 0 0 1)
      fun mem' => (mem' 0).val = -100 % 7 ∧ 0 ≤ (mem' 0).val ∧ (mem' 0).val < 7 ∧
        ∀ v, v ≠ 0 → mem' v = divCells ⟨-100, 2⟩ ⟨7, 1⟩ v := by
  obtain ⟨hint, hdiv, hmod⟩ := mbedtlsMpiDivMpi_correct (w := 64) (by decide)
    (by decide) (Nat.le_refl (2 ^ 64))
  refine ⟨hint 1 5 7, ?_, ?_⟩
  · exact hdiv (Fin 4) true (divCells ⟨-100, 2⟩ ⟨7, 1⟩) (some 2) (some 0) 0 1 (by decide)
      (by decide)
      (by decide) (by decide) (by decide) (by decide)
  · exact hmod (Fin 4) false (divCells ⟨-100, 2⟩ ⟨7, 1⟩) 0 0 1 (by decide) (by decide) (by decide)
      (by decide)

/-- A quotient in the cell of the dividend; an increment that wraps before the correction; a
residue in the cell of the divisor, which is then compared with itself. -/
theorem mbedtlsMpiDivMpi_quotient_aliases :
    ((mbedtlsMpiDivMpi 64 true (2 ^ 64) (divCells ⟨1, 1⟩ ⟨2, 1⟩) (some 0) (some 2) 0 1).toOption.map
        fun result => ((result.1 0).val, (result.1 2).val)) = some (0, 0) ∧
      (1 : Int) ≠ 0 * 2 + 0 ∧
    ((mbedtlsMpiDivMpi 64 true (2 ^ 64)
        (divCells ⟨(2 ^ 63 - 1) * 2 ^ 64 - 1, 2⟩ ⟨2 ^ 63 - 1, 1⟩)
        (some 2) (some 3) 0 1).toOption.map
        fun result => result.2.map (·.wrapped)) = some [true] ∧
    (mbedtlsMpiModMpiCells 64 true 8 (divCells ⟨7, 1⟩ ⟨2, 1⟩) 1 0 1).map
        (fun mem' => (mem' 1).val) = .error .fuel := by
  refine ⟨by decide, by decide, by decide +kernel, by decide +kernel⟩

end TfPsaCrypto
