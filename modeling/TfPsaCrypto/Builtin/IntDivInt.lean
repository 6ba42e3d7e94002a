import TfPsaCrypto.Builtin.BignumModInt
import TfPsaCrypto.Library.LongDivision

/-!
# Dividing two limbs by one

`mbedtls_int_div_int` of `bignum.c`, both with an integer type of two limbs
(`MBEDTLS_HAVE_UDBL`) and with half limbs.
-/

namespace TfPsaCrypto

open Limbs

variable {w : Nat}

/-! ## The two ways -/

/-- A quotient and `*r`. -/
structure IntDivInt (w : Nat) where
  quotient : BitVec w
  r : BitVec w
  deriving DecidableEq, Repr

def IntDivInt.overflow : IntDivInt w := { quotient := ~~~0, r := ~~~0 }

def mbedtlsIntDivIntUdbl (u1 u0 d : BitVec w) : IntDivInt w :=
  if d = 0 ∨ d ≤ u1 then .overflow
  else
    let dividend : BitVec (w + w) := (u1.setWidth (w + w) <<< w) ||| u0.setWidth (w + w)
    let quotient := dividend / d.setWidth (w + w)
    let largest := ((1 : BitVec (w + w)) <<< w) - 1
    let quotient := if quotient > largest then largest else quotient
    { quotient := quotient.setWidth w
      r := (dividend - quotient * d.setWidth (w + w)).setWidth w }

/-- `while (q >= radix || (q * d0 > radix * r0 + u0))`; `none` for more rounds than `fuel`. -/
def intDivIntCorrect (radix d1 d0 u0 : BitVec w) :
    Nat → BitVec w → BitVec w → Option (BitVec w)
  | 0, _, _ => none
  | fuel + 1, q, r0 =>
    if q ≥ radix ∨ q * d0 > radix * r0 + u0 then
      let q := q - 1
      let r0 := r0 + d1
      if r0 ≥ radix then some q else intDivIntCorrect radix d1 d0 u0 fuel q r0
    else some q

/-- `mbedtls_int_div_int` with half limbs. Where `s` is 0 the bits shifted out of `u0` are masked
away. -/
def mbedtlsIntDivIntHalf (fuel : Nat) (u1 u0 d : BitVec w) : Option (IntDivInt w) :=
  if d = 0 ∨ d ≤ u1 then some .overflow
  else
    let radix := (1 : BitVec w) <<< biH w
    let halfwordMask := radix - 1
    let s := mbedtlsMpiCoreClz d
    let d := d <<< s
    let u1 := u1 <<< s
    let u1 := u1 ||| ((u0 >>> (w - s)) &&& (-(BitVec.ofNat w s)).sshiftRight (w - 1))
    let u0 := u0 <<< s
    let d1 := d >>> biH w
    let d0 := d &&& halfwordMask
    let u0Msw := u0 >>> biH w
    let u0Lsw := u0 &&& halfwordMask
    let q1 := u1 / d1
    let r0 := u1 - d1 * q1
    match intDivIntCorrect radix d1 d0 u0Msw fuel q1 r0 with
    | none => none
    | some q1 =>
      let rAX := (u1 * radix) + (u0Msw - q1 * d)
      let q0 := rAX / d1
      let r0 := rAX - q0 * d1
      match intDivIntCorrect radix d1 d0 u0Lsw fuel q0 r0 with
      | none => none
      | some q0 =>
        some { quotient := q1 * radix + q0
               r := (rAX * radix + u0Lsw - q0 * d) >>> s }

/-! ## With two limbs -/

section Udbl

variable {u1 u0 d : BitVec w}

theorem toNat_two_limbs (u1 u0 : BitVec w) :
    ((u1.setWidth (w + w) <<< w) ||| u0.setWidth (w + w)).toNat = u1.toNat * 2 ^ w + u0.toNat := by
  have hu1 := u1.isLt
  have hu0 := u0.isLt
  have hle : 2 ^ w ≤ 2 ^ (w + w) := Nat.pow_le_pow_right (by decide) (Nat.le_add_left _ _)
  have hlt : u1.toNat * 2 ^ w < 2 ^ (w + w) := by
    rw [Nat.pow_add]
    exact Nat.mul_lt_mul_of_pos_right hu1 (Nat.two_pow_pos w)
  rw [BitVec.toNat_or, BitVec.toNat_shiftLeft, BitVec.toNat_setWidth, BitVec.toNat_setWidth,
    Nat.mod_eq_of_lt (Nat.lt_of_lt_of_le hu1 hle), Nat.mod_eq_of_lt (Nat.lt_of_lt_of_le hu0 hle),
    Nat.shiftLeft_eq, Nat.mod_eq_of_lt hlt, ← Nat.shiftLeft_eq, Nat.shiftLeft_add_eq_or_of_lt hu0]

theorem two_limbs_div_lt (u0 : BitVec w) (h : u1 < d) :
    (u1.toNat * 2 ^ w + u0.toNat) / d.toNat < 2 ^ w := by
  have hlt : u1.toNat < d.toNat := h
  rw [Nat.div_lt_iff_lt_mul (by omega)]
  calc u1.toNat * 2 ^ w + u0.toNat < (u1.toNat + 1) * 2 ^ w := by rw [Nat.succ_mul]; omega
    _ ≤ 2 ^ w * d.toNat := by
        rw [Nat.mul_comm (2 ^ w)]
        exact Nat.mul_le_mul_right _ hlt

theorem mbedtlsIntDivIntUdbl_eq (u0 : BitVec w) (h : u1 < d) :
    (mbedtlsIntDivIntUdbl u1 u0 d).quotient.toNat =
        (u1.toNat * 2 ^ w + u0.toNat) / d.toNat ∧
      (mbedtlsIntDivIntUdbl u1 u0 d).r.toNat = (u1.toNat * 2 ^ w + u0.toNat) % d.toNat := by
  have hquot := two_limbs_div_lt u0 h
  have hlt : u1.toNat < d.toNat := h
  have hd := d.isLt
  have hwpos : 0 < w := by
    by_contra hzero
    have hone : 2 ^ w = 1 := by
      rw [show w = 0 by omega]
      rfl
    omega
  have hwide : 2 ^ w < 2 ^ (w + w) := Nat.pow_lt_pow_right (by decide) (by omega)
  have hnum := toNat_two_limbs u1 u0
  unfold mbedtlsIntDivIntUdbl
  rw [if_neg (by
    rintro (rfl | hle)
    · simp at hlt
    · exact absurd (BitVec.le_def.mp hle) (by omega))]
  simp only
  generalize hdiv : (u1.setWidth (w + w) <<< w) ||| u0.setWidth (w + w) = dividend at hnum
  have hdwide : (d.setWidth (w + w)).toNat = d.toNat := by
    rw [BitVec.toNat_setWidth, Nat.mod_eq_of_lt (by omega)]
  have hmax : (((1 : BitVec (w + w)) <<< w) - 1).toNat = 2 ^ w - 1 := by
    have hone : (1 : BitVec (w + w)).toNat = 1 := BitVec.toNat_one (by omega)
    have hpow : ((1 : BitVec (w + w)) <<< w).toNat = 2 ^ w := by
      rw [BitVec.toNat_shiftLeft, hone, Nat.one_shiftLeft, Nat.mod_eq_of_lt hwide]
    have hpos := Nat.two_pow_pos w
    rw [BitVec.toNat_sub_of_le, hpow, hone]
    rw [BitVec.le_def, hpow, hone]
    exact hpos
  have hq : (dividend / d.setWidth (w + w)).toNat = (u1.toNat * 2 ^ w + u0.toNat) / d.toNat := by
    rw [BitVec.toNat_udiv, hnum, hdwide]
  rw [if_neg (by
    rw [gt_iff_lt, BitVec.lt_def, hmax, hq]
    omega)]
  constructor
  · rw [BitVec.toNat_setWidth, hq, Nat.mod_eq_of_lt hquot]
  · rw [BitVec.toNat_setWidth, toNat_sub_div_mul, hnum, hdwide]
    exact Nat.mod_eq_of_lt (Nat.lt_trans (Nat.mod_lt _ (by omega)) hd)

end Udbl

/-! ## With half limbs -/

theorem rest_eq {x m p : BitVec w} {n d q : Nat} (radix : BitVec w)
    (hn : n = x.toNat * radix.toNat + m.toNat) (hp : p.toNat = q * d % 2 ^ w) (hq : q = n / d) :
    x * radix + m - p = BitVec.ofNat w (n % d) := by
  have hsum : x * radix + m = BitVec.ofNat w (n % d) + p := by
    apply BitVec.eq_of_toNat_eq
    rw [BitVec.toNat_add, BitVec.toNat_mul, Nat.mod_add_mod, ← hn, BitVec.toNat_add,
      BitVec.toNat_ofNat, hp, Nat.mod_add_mod, Nat.add_mod_mod, hq, Nat.mul_comm, Nat.mod_add_div]
  rw [hsum, BitVec.add_sub_cancel]

section Half

variable (hw : w = 2 * biH w) (hpos : 0 < w)

include hw hpos

theorem biH_pos : 0 < biH w := by omega

theorem two_le_two_pow_biH : 2 ≤ 2 ^ biH w := by
  have h := Nat.pow_le_pow_right (n := 2) (by decide) (biH_pos hw hpos)
  simpa using h

theorem toNat_radix : ((1 : BitVec w) <<< biH w).toNat = 2 ^ biH w := by
  have hone : (1 : BitVec w).toNat = 1 := BitVec.toNat_one hpos
  have hlt : 2 ^ biH w < 2 ^ w := Nat.pow_lt_pow_right (by decide) (by omega)
  rw [BitVec.toNat_shiftLeft, hone, Nat.one_shiftLeft, Nat.mod_eq_of_lt hlt]

theorem toNat_and_halfwordMask (x : BitVec w) :
    (x &&& (((1 : BitVec w) <<< biH w) - 1)).toNat = x.toNat % 2 ^ biH w := by
  have hone : (1 : BitVec w).toNat = 1 := BitVec.toNat_one hpos
  have hradix := toNat_radix hw hpos
  have hmask : (((1 : BitVec w) <<< biH w) - 1).toNat = 2 ^ biH w - 1 := by
    rw [BitVec.toNat_sub_of_le, hradix, hone]
    rw [BitVec.le_def, hradix, hone]
    exact Nat.two_pow_pos _
  rw [BitVec.toNat_and, hmask, Nat.and_two_pow_sub_one_eq_mod]

theorem intDivIntCorrect_eq {radix d1 d0 q : BitVec w} (u0 r0 : BitVec w) {u fuel : Nat} {d : Nat}
    (hradix : radix.toNat = 2 ^ biH w) (hd : d = d1.toNat * 2 ^ biH w + d0.toNat)
    (hd1H : d1.toNat < 2 ^ biH w) (hd0 : d0.toNat < 2 ^ biH w)
    (hu0 : u0.toNat < 2 ^ biH w) (hu : u < d) (hqr : q.toNat * d1.toNat + r0.toNat = u)
    (hr0 : r0.toNat < 2 ^ biH w) (hge : (u * 2 ^ biH w + u0.toNat) / d ≤ q.toNat)
    (hfuel : 2 ^ biH w ≤ fuel * d1.toNat + r0.toNat) :
    ∃ q' : BitVec w, intDivIntCorrect radix d1 d0 u0 fuel q r0 = some q' ∧
      q'.toNat = (u * 2 ^ biH w + u0.toNat) / d := by
  have hpow := two_pow_eq_biH hw
  have htwo := two_le_two_pow_biH hw hpos
  have hone : (1 : BitVec w).toNat = 1 := BitVec.toNat_one hpos
  generalize hH : 2 ^ biH w = H at *
  have hHH : H * 2 ≤ 2 ^ w := by
    rw [hpow]
    exact Nat.mul_le_mul_left _ htwo
  have hdigit : (u * H + u0.toNat) / d < H := by
    rw [Nat.div_lt_iff_lt_mul (by omega)]
    calc u * H + u0.toNat < (u + 1) * H := by rw [Nat.succ_mul]; omega
      _ ≤ H * d := by
          rw [Nat.mul_comm H]
          exact Nat.mul_le_mul_right _ hu
  induction fuel generalizing q r0 with
  | zero => omega
  | succ fuel ih =>
    unfold intDivIntCorrect
    -- the comparison is one of products where `q` is a digit
    have hcond : (q ≥ radix ∨ q * d0 > radix * r0 + u0) ↔
        H ≤ q.toNat ∨ q.toNat * d > u * H + u0.toNat := by
      rw [ge_iff_le, BitVec.le_def, hradix]
      rcases Nat.lt_or_ge q.toNat H with hlt | hge'
      · have hprod : (q * d0).toNat = q.toNat * d0.toNat := by
          rw [BitVec.toNat_mul]
          apply Nat.mod_eq_of_lt
          rw [hpow]
          exact Nat.mul_lt_mul'' hlt hd0
        have hsum : (radix * r0 + u0).toNat = H * r0.toNat + u0.toNat := by
          have hle : H * r0.toNat + u0.toNat < 2 ^ w := by
            rw [hpow]
            calc H * r0.toNat + u0.toNat < H * (r0.toNat + 1) := by rw [Nat.mul_succ]; omega
              _ ≤ H * H := Nat.mul_le_mul_left _ hr0
          rw [BitVec.toNat_add, BitVec.toNat_mul, hradix, Nat.mod_add_mod, Nat.mod_eq_of_lt hle]
        rw [gt_iff_lt, BitVec.lt_def, hprod, hsum, ← gt_iff_lt, LongDivision.product_gt_iff hd hqr]
      · exact ⟨fun _ => Or.inl hge', fun _ => Or.inl hge'⟩
    by_cases hc : H ≤ q.toNat ∨ q.toNat * d > u * H + u0.toNat
    · rw [if_pos (hcond.mpr hc)]
      have hgt : (u * H + u0.toNat) / d < q.toNat := by
        rcases hc with hle | hprod
        · omega
        · rw [Nat.div_lt_iff_lt_mul (by omega)]
          exact hprod
      have hqpos : 0 < q.toNat := Nat.zero_lt_of_lt hgt
      have hq : (q - 1).toNat = q.toNat - 1 := by
        rw [BitVec.toNat_sub_of_le, hone]
        rw [BitVec.le_def, hone]
        exact hqpos
      have hr : (r0 + d1).toNat = r0.toNat + d1.toNat := by
        rw [BitVec.toNat_add, Nat.mod_eq_of_lt (by omega)]
      have hqr' : (q - 1).toNat * d1.toNat + (r0 + d1).toNat = u := by
        obtain ⟨k, hk⟩ := Nat.exists_eq_succ_of_ne_zero (Nat.ne_of_gt hqpos)
        rw [hq, hr, ← hqr, hk, Nat.succ_sub_one, Nat.succ_mul]
        omega
      simp only
      split
      · next hrest =>
        rw [ge_iff_le, BitVec.le_def, hradix] at hrest
        obtain ⟨_, hle⟩ := LongDivision.product_le_of_rest (m := u0.toNat) hd hqr' hu hd0 hrest
        exact ⟨_, rfl, LongDivision.eq_div_of_product_le (by omega) (by omega) hle⟩
      · next hrest =>
        rw [ge_iff_le, BitVec.le_def, hradix, Nat.not_le] at hrest
        apply ih _ hqr' hrest (by omega)
        rw [Nat.succ_mul] at hfuel
        omega
    · rw [if_neg (fun h => hc (hcond.mp h))]
      rw [not_or, Nat.not_le, gt_iff_lt, Nat.not_lt] at hc
      exact ⟨q, rfl, LongDivision.eq_div_of_product_le (by omega) hge hc.2⟩

theorem toNat_shifted_out (u0 : BitVec w) {s : Nat} (hs : s < w) :
    ((u0 >>> (w - s)) &&& (-(BitVec.ofNat w s)).sshiftRight (w - 1)).toNat =
      u0.toNat * 2 ^ s / 2 ^ w := by
  have hsplit : u0.toNat * 2 ^ s / 2 ^ w = u0.toNat / 2 ^ (w - s) := by
    have hpow : 2 ^ w = 2 ^ (w - s) * 2 ^ s := by
      rw [← Nat.pow_add, Nat.sub_add_cancel (Nat.le_of_lt hs)]
    rw [hpow, Nat.mul_div_mul_right _ _ (Nat.two_pow_pos s)]
  rw [hsplit]
  rcases Nat.eq_zero_or_pos s with rfl | hspos
  · have hneg : -(BitVec.ofNat w 0) = 0#w := by simp
    rw [hneg, BitVec.zero_sshiftRight, BitVec.and_zero, Nat.sub_zero, Nat.div_eq_of_lt u0.isLt]
    rfl
  have hpow : 2 ^ w = 2 ^ (w - 1) * 2 := by
    rw [← Nat.pow_succ, Nat.succ_eq_add_one, Nat.sub_add_cancel hpos]
  have hsmall : s ≤ 2 ^ (w - 1) := by
    have hlt := Nat.lt_two_pow_self (n := w - 1)
    omega
  have hneg : (-(BitVec.ofNat w s)).toNat = 2 ^ w - s := by
    rw [BitVec.toNat_neg, BitVec.toNat_ofNat, Nat.mod_eq_of_lt (show s < 2 ^ w by omega),
      Nat.mod_eq_of_lt (by omega)]
  have hmsb : (-(BitVec.ofNat w s)).msb = true := by
    rw [BitVec.msb_eq_decide, hneg, decide_eq_true_eq]
    omega
  have hmask : (-(BitVec.ofNat w s)).sshiftRight (w - 1) = ~~~0#w := by
    rw [BitVec.sshiftRight_eq_of_msb_true hmsb]
    congr 1
    apply BitVec.eq_of_toNat_eq
    rw [BitVec.toNat_ushiftRight, BitVec.toNat_not, hneg, Nat.shiftRight_eq_div_pow,
      Nat.div_eq_of_lt (by omega)]
    rfl
  rw [hmask]
  have hand : u0 >>> (w - s) &&& ~~~0#w = u0 >>> (w - s) := by
    rw [BitVec.not_zero, BitVec.and_allOnes]
  rw [hand, BitVec.toNat_ushiftRight, Nat.shiftRight_eq_div_pow]

end Half

section Half

variable (hw : w = 2 * biH w) (hpos : 0 < w)

include hw hpos

theorem mbedtlsIntDivIntHalf_eq {u1 d : BitVec w} (u0 : BitVec w) (h : u1 < d) {fuel : Nat}
    (hfuel : 2 ≤ fuel) :
    ∃ result, mbedtlsIntDivIntHalf fuel u1 u0 d = some result ∧
      result.quotient.toNat = (u1.toNat * 2 ^ w + u0.toNat) / d.toNat ∧
      result.r.toNat = (u1.toNat * 2 ^ w + u0.toNat) % d.toNat := by
  have hlt : u1.toNat < d.toNat := h
  have hdw := d.isLt
  have hHH := two_pow_eq_biH hw
  have hradix := toNat_radix hw hpos
  have hdpos : 0 < d.toNat := by omega
  have hsize : 0 < d.toNat.size := Nat.size_pos.mpr hdpos
  have hsizew : d.toNat.size ≤ w := Nat.size_le.mpr hdw
  -- normalised, the divisor takes its highest bit
  have hs : mbedtlsMpiCoreClz d = w - d.toNat.size := mbedtlsMpiCoreClz_eq d
  have hsw : mbedtlsMpiCoreClz d < w := by omega
  have hdlt : d.toNat * 2 ^ mbedtlsMpiCoreClz d < 2 ^ w := by
    rw [hs]
    calc d.toNat * 2 ^ (w - d.toNat.size)
        < 2 ^ d.toNat.size * 2 ^ (w - d.toNat.size) :=
          Nat.mul_lt_mul_of_pos_right (Nat.lt_size_self _) (Nat.two_pow_pos _)
      _ = 2 ^ w := by rw [← Nat.pow_add, Nat.add_sub_cancel' hsizew]
  have hdge : 2 ^ (w - 1) ≤ d.toNat * 2 ^ mbedtlsMpiCoreClz d := by
    have hlow : 2 ^ (d.toNat.size - 1) ≤ d.toNat := Nat.lt_size.mp (by omega)
    calc 2 ^ (w - 1) = 2 ^ (d.toNat.size - 1) * 2 ^ (w - d.toNat.size) := by
          rw [← Nat.pow_add]
          congr 1
          omega
      _ ≤ _ := by
          rw [hs]
          exact Nat.mul_le_mul_right _ hlow
  generalize hsdef : mbedtlsMpiCoreClz d = s at *
  have hd' : (d <<< s).toNat = d.toNat * 2 ^ s := by
    rw [BitVec.toNat_shiftLeft, Nat.shiftLeft_eq, Nat.mod_eq_of_lt hdlt]
  have hu0' : (u0 <<< s).toNat = u0.toNat * 2 ^ s % 2 ^ w := by
    rw [BitVec.toNat_shiftLeft, Nat.shiftLeft_eq]
  have hu1lt : u1.toNat * 2 ^ s + u0.toNat * 2 ^ s / 2 ^ w < d.toNat * 2 ^ s := by
    have hsmall : u0.toNat * 2 ^ s / 2 ^ w < 2 ^ s := by
      rw [Nat.div_lt_iff_lt_mul (Nat.two_pow_pos w), Nat.mul_comm]
      exact Nat.mul_lt_mul_of_pos_left u0.isLt (Nat.two_pow_pos s)
    calc u1.toNat * 2 ^ s + u0.toNat * 2 ^ s / 2 ^ w < (u1.toNat + 1) * 2 ^ s := by
          rw [Nat.succ_mul]
          omega
      _ ≤ d.toNat * 2 ^ s := Nat.mul_le_mul_right _ hlt
  have hu1' : ((u1 <<< s) ||| ((u0 >>> (w - s)) &&&
      (-(BitVec.ofNat w s)).sshiftRight (w - 1))).toNat =
      u1.toNat * 2 ^ s + u0.toNat * 2 ^ s / 2 ^ w := by
    have hsmall : u0.toNat * 2 ^ s / 2 ^ w < 2 ^ s := by
      rw [Nat.div_lt_iff_lt_mul (Nat.two_pow_pos w), Nat.mul_comm]
      exact Nat.mul_lt_mul_of_pos_left u0.isLt (Nat.two_pow_pos s)
    have hfit : u1.toNat * 2 ^ s < 2 ^ w :=
      Nat.lt_of_le_of_lt (Nat.le_add_right _ _) (Nat.lt_trans hu1lt hdlt)
    rw [BitVec.toNat_or, toNat_shifted_out hw hpos u0 hsw, BitVec.toNat_shiftLeft,
      Nat.shiftLeft_eq, Nat.mod_eq_of_lt hfit, ← Nat.shiftLeft_eq,
      Nat.shiftLeft_add_eq_or_of_lt hsmall]
  unfold mbedtlsIntDivIntHalf
  rw [if_neg (by
    rintro (rfl | hle)
    · simp at hlt
    · exact absurd (BitVec.le_def.mp hle) (by omega))]
  simp only [hsdef]
  generalize (u1 <<< s) ||| ((u0 >>> (w - s)) &&&
    (-(BitVec.ofNat w s)).sshiftRight (w - 1)) = v1 at hu1'
  generalize u0 <<< s = v0 at hu0'
  generalize d <<< s = e at hd'
  generalize hR : (1 : BitVec w) <<< biH w = radix at hradix
  have hmask : ∀ x : BitVec w, (x &&& (radix - 1)).toNat = x.toNat % 2 ^ biH w := by
    intro x
    rw [← hR]
    exact toNat_and_halfwordMask hw hpos x
  have hhigh : ∀ x : BitVec w, (x >>> biH w).toNat = x.toNat / 2 ^ biH w := by
    intro x
    rw [BitVec.toNat_ushiftRight, Nat.shiftRight_eq_div_pow]
  have hhighlt : ∀ x : BitVec w, (x >>> biH w).toNat < 2 ^ biH w := by
    intro x
    rw [hhigh, Nat.div_lt_iff_lt_mul (Nat.two_pow_pos _), ← hHH]
    exact x.isLt
  have hlowlt : ∀ x : BitVec w, (x &&& (radix - 1)).toNat < 2 ^ biH w := by
    intro x
    rw [hmask]
    exact Nat.mod_lt _ (Nat.two_pow_pos _)
  have hparts : ∀ x : BitVec w, x.toNat =
      (x >>> biH w).toNat * 2 ^ biH w + (x &&& (radix - 1)).toNat := by
    intro x
    rw [hhigh, hmask, Nat.mul_comm, Nat.div_add_mod]
  have he := hparts e
  have hd1H := hhighlt e
  have hd0H := hlowlt e
  have hm1 := hhighlt v0
  have hm0 := hlowlt v0
  have hv0 := hparts v0
  have hd1two : 2 ^ biH w ≤ 2 * (e >>> biH w).toNat := by
    have hle : 2 ^ (biH w - 1) ≤ (e >>> biH w).toNat := by
      rw [hhigh, Nat.le_div_iff_mul_le (Nat.two_pow_pos _), ← Nat.pow_add, hd']
      have hexp : biH w - 1 + biH w = w - 1 := by omega
      rw [hexp]
      exact hdge
    have htwice : 2 ^ biH w = 2 * 2 ^ (biH w - 1) := by
      rw [← Nat.pow_succ', Nat.succ_eq_add_one, Nat.sub_add_cancel (biH_pos hw hpos)]
    omega
  generalize hd1 : e >>> biH w = d1 at *
  generalize hd0 : e &&& (radix - 1) = d0 at *
  generalize v0 >>> biH w = msw at *
  generalize v0 &&& (radix - 1) = lsw at *
  have hd1pos : 0 < d1.toNat := by omega
  have hepos : 0 < e.toNat := by
    rw [hd']
    exact Nat.mul_pos hdpos (Nat.two_pow_pos s)
  have hfuel' : ∀ r0 : BitVec w, 2 ^ biH w ≤ fuel * d1.toNat + r0.toNat := by
    intro r0
    have hmul : 2 * d1.toNat ≤ fuel * d1.toNat := Nat.mul_le_mul_right _ hfuel
    omega
  -- one digit, and what is left of the dividend
  have hphase : ∀ {x m : BitVec w}, x.toNat < e.toNat → m.toNat < 2 ^ biH w →
      ∃ q, intDivIntCorrect radix d1 d0 m fuel (x / d1) (x - x / d1 * d1) = some q ∧
        q.toNat = (x.toNat * 2 ^ biH w + m.toNat) / e.toNat ∧
        x * radix + m - q * e = BitVec.ofNat w ((x.toNat * 2 ^ biH w + m.toNat) % e.toNat) := by
    intro x m hx hm
    have hr0 : (x - x / d1 * d1).toNat = x.toNat % d1.toNat := toNat_sub_div_mul x d1
    have hq0 : (x / d1).toNat = x.toNat / d1.toNat := BitVec.toNat_udiv
    obtain ⟨q, hq, hqval⟩ := intDivIntCorrect_eq hw hpos (u := x.toNat) (q := x / d1)
      m (x - x / d1 * d1) hradix he hd1H hd0H hm hx
      (by rw [hr0, hq0, Nat.mul_comm, Nat.div_add_mod])
      (by
        rw [hr0]
        exact Nat.lt_trans (Nat.mod_lt _ hd1pos) hd1H)
      (by
        rw [hq0]
        exact LongDivision.digit_le_estimate he hd1pos hm)
      (hfuel' _)
    refine ⟨q, hq, hqval, ?_⟩
    apply rest_eq radix (n := x.toNat * 2 ^ biH w + m.toNat) (d := e.toNat) (q := q.toNat)
    · rw [hradix]
    · exact BitVec.toNat_mul _ _
    · exact hqval
  obtain ⟨q1, hq1, hq1val, hrest1⟩ := hphase (x := v1) (m := msw) (by omega) hm1
  have hrest1lt := Nat.mod_lt (v1.toNat * 2 ^ biH w + msw.toNat) hepos
  have hraxval : (BitVec.ofNat w ((v1.toNat * 2 ^ biH w + msw.toNat) % e.toNat)).toNat =
      (v1.toNat * 2 ^ biH w + msw.toNat) % e.toNat := by
    rw [BitVec.toNat_ofNat, Nat.mod_eq_of_lt (Nat.lt_trans hrest1lt e.isLt)]
  have hrax : v1 * radix + (msw - q1 * e) =
      BitVec.ofNat w ((v1.toNat * 2 ^ biH w + msw.toNat) % e.toNat) := by
    rw [← hrest1]
    ring
  rw [BitVec.mul_comm d1, hq1]
  simp only [hrax]
  generalize BitVec.ofNat w ((v1.toNat * 2 ^ biH w + msw.toNat) % e.toNat) = rax at hraxval
  obtain ⟨q0, hq0, hq0val, hrest0⟩ := hphase (x := rax) (m := lsw) (by omega) hm0
  rw [hq0]
  simp only [hrest0]
  refine ⟨_, rfl, ?_⟩
  -- the two digits together
  have hrest0lt := Nat.mod_lt (rax.toNat * 2 ^ biH w + lsw.toNat) hepos
  have hn1 := Nat.div_add_mod (v1.toNat * 2 ^ biH w + msw.toNat) e.toNat
  have hn0 := Nat.div_add_mod (rax.toNat * 2 ^ biH w + lsw.toNat) e.toNat
  rw [← hq1val, ← hraxval] at hn1
  rw [← hq0val] at hn0
  generalize (rax.toNat * 2 ^ biH w + lsw.toNat) % e.toNat = rest at hn0 hrest0lt
  have htotal : (u1.toNat * 2 ^ w + u0.toNat) * 2 ^ s =
      e.toNat * (q1.toNat * 2 ^ biH w + q0.toNat) + rest := by
    have hshift : (u1.toNat * 2 ^ w + u0.toNat) * 2 ^ s = v1.toNat * 2 ^ w + v0.toNat := by
      have hsplit := Nat.div_add_mod (u0.toNat * 2 ^ s) (2 ^ w)
      rw [hu1', hu0']
      calc (u1.toNat * 2 ^ w + u0.toNat) * 2 ^ s
          = u1.toNat * 2 ^ s * 2 ^ w + u0.toNat * 2 ^ s := by ring
        _ = u1.toNat * 2 ^ s * 2 ^ w + (2 ^ w * (u0.toNat * 2 ^ s / 2 ^ w) +
              u0.toNat * 2 ^ s % 2 ^ w) := by rw [hsplit]
        _ = _ := by ring
    calc (u1.toNat * 2 ^ w + u0.toNat) * 2 ^ s
        = (v1.toNat * 2 ^ biH w + msw.toNat) * 2 ^ biH w + lsw.toNat := by
          rw [hshift, hv0, hHH]
          ring
      _ = (e.toNat * q1.toNat + rax.toNat) * 2 ^ biH w + lsw.toNat := by rw [hn1]
      _ = e.toNat * q1.toNat * 2 ^ biH w + (rax.toNat * 2 ^ biH w + lsw.toNat) := by ring
      _ = e.toNat * q1.toNat * 2 ^ biH w + (e.toNat * q0.toNat + rest) := by rw [hn0]
      _ = _ := by ring
  have hquot : (u1.toNat * 2 ^ w + u0.toNat) / d.toNat = q1.toNat * 2 ^ biH w + q0.toNat := by
    rw [← Nat.mul_div_mul_right _ _ (Nat.two_pow_pos s), htotal, ← hd',
      Nat.mul_add_div hepos, Nat.div_eq_of_lt hrest0lt, Nat.add_zero]
  have hrem : (u1.toNat * 2 ^ w + u0.toNat) % d.toNat * 2 ^ s = rest := by
    rw [← Nat.mul_mod_mul_right, htotal, ← hd', Nat.mul_add_mod, Nat.mod_eq_of_lt hrest0lt]
  have hqlt := two_limbs_div_lt u0 h
  constructor
  · rw [hquot] at hqlt ⊢
    rw [BitVec.toNat_add, BitVec.toNat_mul, Nat.mod_add_mod, hradix, Nat.mod_eq_of_lt hqlt]
  · rw [BitVec.toNat_ushiftRight, BitVec.toNat_ofNat,
      Nat.mod_eq_of_lt (Nat.lt_trans hrest0lt e.isLt), Nat.shiftRight_eq_div_pow, ← hrem,
      Nat.mul_div_cancel _ (Nat.two_pow_pos s)]

theorem mbedtlsIntDivIntHalf_eq_udbl (u1 u0 d : BitVec w) {fuel : Nat} (hfuel : 2 ≤ fuel) :
    mbedtlsIntDivIntHalf fuel u1 u0 d = some (mbedtlsIntDivIntUdbl u1 u0 d) := by
  by_cases hover : d = 0 ∨ d ≤ u1
  · unfold mbedtlsIntDivIntHalf mbedtlsIntDivIntUdbl
    rw [if_pos hover, if_pos hover]
  have hlt : u1 < d := by
    rw [not_or] at hover
    exact BitVec.not_le.mp hover.2
  obtain ⟨result, hrun, hquot, hrem⟩ := mbedtlsIntDivIntHalf_eq hw hpos u0 hlt hfuel
  obtain ⟨hquot', hrem'⟩ := mbedtlsIntDivIntUdbl_eq u0 hlt
  rw [hrun]
  congr 1
  rcases result with ⟨quotient, r⟩
  have hq : quotient = (mbedtlsIntDivIntUdbl u1 u0 d).quotient :=
    BitVec.eq_of_toNat_eq (by rw [hquot'];exact hquot)
  have hr : r = (mbedtlsIntDivIntUdbl u1 u0 d).r := BitVec.eq_of_toNat_eq (by rw [hrem'];exact hrem)
  rw [hq, hr]

end Half

end TfPsaCrypto
