import TfPsaCrypto.Builtin.RsaDerKeyPair

/-!
# Round trips of RSA keys, as a whole

A key whose CRT exponents leave room for a sign byte is read back; one whose exponent fills the
limbs is written and rejected.
-/

namespace TfPsaCrypto.RsaDer

open Bytes Der Limbs
open RsaPrivate (Build mbedtlsMpiMaxSize)

variable {w : Nat}

/-! ## A key with a wide exponent -/

/-- A key for which any `DP` will do that is `-1` modulo `2 ^ 64`. -/
def keyWithDP (limbs : Nat) (dp : Int) : MbedtlsRsaContext 64 :=
  { len := 17
    N := MpiNum.mpi 64 ⟨(2 ^ 64 + 1) * (2 ^ 65 + 1), 3⟩
    E := MpiNum.mpi 64 ⟨2 ^ 65 - 1, 2⟩
    D := MpiNum.mpi 64 ⟨2 ^ 65 - 1, 2⟩
    P := MpiNum.mpi 64 ⟨2 ^ 64 + 1, 2⟩
    Q := MpiNum.mpi 64 ⟨2 ^ 65 + 1, 2⟩
    DP := MpiNum.mpi 64 ⟨dp, limbs⟩
    DQ := MpiNum.mpi 64 ⟨2 ^ 65 - 1, 2⟩
    QP := MpiNum.mpi 64 ⟨2 ^ 64, 2⟩ }

theorem limbCount_two {v : Int} (h : v.natAbs < 2 ^ 128) : limbCount 64 v ≤ 2 :=
  (limbCount_le (by decide)).mpr h

theorem keyWithDP_modulus (limbs : Nat) (dp : Int) :
    Positive (keyWithDP limbs dp).N ∧ (keyWithDP limbs dp).N.toInt = (2 ^ 64 + 1) * (2 ^ 65 + 1) :=
  positive_mpi (by decide) (by decide) ((limbCount_le (by decide)).mpr (by decide))

theorem keyWithDP_exponent (limbs : Nat) (dp : Int) :
    Positive (keyWithDP limbs dp).D ∧ (keyWithDP limbs dp).D.toInt = 2 ^ 65 - 1 :=
  positive_mpi (by decide) (by decide) (limbCount_two (by decide))

theorem keyWithDP_primes (limbs : Nat) (dp : Int) :
    (Positive (keyWithDP limbs dp).P ∧ (keyWithDP limbs dp).P.toInt = 2 ^ 64 + 1) ∧
      (Positive (keyWithDP limbs dp).Q ∧ (keyWithDP limbs dp).Q.toInt = 2 ^ 65 + 1) :=
  ⟨positive_mpi (by decide) (by decide) (limbCount_two (by decide)),
    positive_mpi (by decide) (by decide) (limbCount_two (by decide))⟩

theorem keyWithDP_coefficient (limbs : Nat) (dp : Int) :
    Positive (keyWithDP limbs dp).QP ∧ (keyWithDP limbs dp).QP.toInt = 2 ^ 64 :=
  positive_mpi (by decide) (by decide) (limbCount_two (by decide))

theorem keyWithDP_DP {limbs : Nat} {dp : Int} (hpos : 0 < dp)
    (hlt : dp.natAbs < 2 ^ (64 * limbs)) :
    Positive (keyWithDP limbs dp).DP ∧ (keyWithDP limbs dp).DP.toInt = dp :=
  positive_mpi (by decide) hpos ((limbCount_le (by decide)).mpr hlt)

theorem keyWithDP_signed {limbs : Nat} {dp : Int} (hpos : 0 < dp)
    (hlt : dp.natAbs < 2 ^ (64 * limbs)) : Signed .crt (keyWithDP limbs dp) := by
  have hD := (keyWithDP_exponent limbs dp).1.s
  obtain ⟨hP, hQ⟩ := keyWithDP_primes limbs dp
  exact {
    N := .inl (keyWithDP_modulus limbs dp).1.s
    E := .inl hD
    D := .inl hD
    P := .inl hP.1.s
    Q := .inl hQ.1.s
    crt := fun _ => ⟨.inl (keyWithDP_DP hpos hlt).1.s, .inl hD,
      .inl (keyWithDP_coefficient limbs dp).1.s⟩ }

theorem keyWithDP_check {limbs : Nat} {dp : Int} (hpos : 0 < dp)
    (hlt : dp.natAbs < 2 ^ (64 * limbs)) (hlimbs : limbs ≤ mpiDivLimbs)
    (hmod : (dp - (2 ^ 65 - 1)) % 2 ^ 64 = 0) :
    mbedtlsRsaCheckPrivkey .crt (keyWithDP limbs dp) = .ok () := by
  obtain ⟨hN, hNval⟩ := keyWithDP_modulus limbs dp
  obtain ⟨hD, hDval⟩ := keyWithDP_exponent limbs dp
  obtain ⟨⟨hP, hPval⟩, hQ, hQval⟩ := keyWithDP_primes limbs dp
  obtain ⟨hQP, hQPval⟩ := keyWithDP_coefficient limbs dp
  obtain ⟨hDP, hDPval⟩ := keyWithDP_DP hpos hlt
  have hn : ∀ v, (MpiNum.mpi 64 ⟨v, 2⟩).n ≤ mpiDivLimbs := fun v => by
    show (ofNat 64 2 v.natAbs).length ≤ mpiDivLimbs
    rw [length_ofNat]
    decide
  have hnDP : (keyWithDP limbs dp).DP.n ≤ mpiDivLimbs := by
    show (ofNat 64 limbs dp.natAbs).length ≤ mpiDivLimbs
    rwa [length_ofNat]
  have hsum : ∀ {X Y : MbedtlsMpi 64}, X.toInt.natAbs < 2 ^ 128 → Y.toInt.natAbs < 2 ^ 128 →
      limbCount 64 X.toInt + limbCount 64 Y.toInt ≤ mpiDivLimbs := by
    intro X Y hX hY
    have hleX := limbCount_two hX
    have hleY := limbCount_two hY
    have h4 : mpiDivLimbs = 9998 := rfl
    omega
  rw [mbedtlsRsaCheckPrivkey_eq_ok]
  refine ⟨?_, ?_, ?_, ?_⟩
  · have hsame : SamePublic (keyWithDP limbs dp) (keyWithDP 1 1) := ⟨rfl, ⟨rfl, rfl⟩, ⟨rfl, rfl⟩⟩
    rw [mbedtlsRsaCheckPubkey_congr hsame]
    decide +kernel
  · have hone : rsaCheckContext .crt (keyWithDP 1 1) true true = true := by decide +kernel
    have hposDP : decide (0 < (keyWithDP limbs dp).DP.toInt) =
        decide (0 < (keyWithDP 1 1).DP.toInt) := by
      rw [hDPval, (keyWithDP_DP (by decide) (by decide)).2]
      simp [hpos]
    rw [← hone]
    unfold rsaCheckContext
    simp only [hposDP]
    rfl
  · apply mbedtlsRsaValidateParams_of_small (by decide)
    · show KeyValues (keyWithDP limbs dp).N.toInt (keyWithDP limbs dp).D.toInt
        (keyWithDP limbs dp).D.toInt (keyWithDP limbs dp).P.toInt (keyWithDP limbs dp).Q.toInt
      rw [hNval, hDval, hPval, hQval]
      constructor <;> decide
    · exact hP.small (by decide) (hn _)
    · exact hQ.small (by decide) (hn _)
    · exact hsum (by rw [hPval]; decide) (by rw [hQval]; decide)
    · exact hsum (X := (keyWithDP limbs dp).D) (Y := (keyWithDP limbs dp).D)
        (by rw [hDval]; decide) (by rw [hDval]; decide)
  · intro _
    apply mbedtlsRsaValidateCrt_of_small (by decide)
    · show 1 < (keyWithDP limbs dp).P.toInt
      rw [hPval]
      decide
    · show 1 < (keyWithDP limbs dp).Q.toInt
      rw [hQval]
      decide
    · show 0 ≤ (keyWithDP limbs dp).D.toInt
      rw [hDval]
      decide
    · show 0 ≤ (keyWithDP limbs dp).DP.toInt
      rw [hDPval]
      omega
    · show 0 ≤ (keyWithDP limbs dp).D.toInt
      rw [hDval]
      decide
    · show 0 < (keyWithDP limbs dp).QP.toInt
      rw [hQPval]
      decide
    · show CrtValues (keyWithDP limbs dp).P.toInt (keyWithDP limbs dp).Q.toInt
        (keyWithDP limbs dp).D.toInt (keyWithDP limbs dp).DP.toInt (keyWithDP limbs dp).D.toInt
        (keyWithDP limbs dp).QP.toInt
      rw [hPval, hQval, hDval, hDPval, hQPval]
      exact ⟨by rwa [Int.add_sub_cancel], by decide, by decide⟩
    · exact hP.small (by decide) (hn _)
    · exact hQ.small (by decide) (hn _)
    · exact hD.small (by decide) (hn _)
    · exact hDP.small (by decide) hnDP
    · exact hD.small (by decide) (hn _)
    · exact hsum (by rw [hQPval]; decide) (by rw [hQval]; decide)

def wideExponent : Int := 2 ^ (64 * mpiDivLimbs) - 1

theorem wideExponent_natAbs : wideExponent.natAbs = 2 ^ (64 * mpiDivLimbs) - 1 := by
  have hpos : 0 < 2 ^ (64 * mpiDivLimbs) := Nat.two_pow_pos _
  have hcast : wideExponent = ((2 ^ (64 * mpiDivLimbs) - 1 : Nat) : Int) := by
    rw [Nat.cast_sub hpos, Nat.cast_pow]
    rfl
  rw [hcast, Int.natAbs_natCast]

theorem wideExponent_mod : (wideExponent - (2 ^ 65 - 1)) % 2 ^ 64 = 0 := by
  have hlimbs : 64 * mpiDivLimbs = 64 + 64 * 9997 := rfl
  have hfactor : wideExponent - (2 ^ 65 - 1) = 2 ^ 64 * (2 ^ (64 * 9997) - 2) := by
    unfold wideExponent
    rw [hlimbs, pow_add]
    generalize (2 : Int) ^ (64 * 9997) = y
    ring
  rw [hfactor, Int.mul_emod_right]

def wideKey : MbedtlsRsaContext 64 := keyWithDP mpiDivLimbs wideExponent

def wideKeyDer : ByteString :=
  derKey [wideKey.QP, wideKey.DQ, wideKey.DP, wideKey.Q, wideKey.P, wideKey.D, wideKey.E, wideKey.N]

theorem wideExponent_bounds :
    0 < wideExponent ∧ wideExponent.natAbs < 2 ^ (64 * mpiDivLimbs) ∧ 2 ^ 66 ≤ wideExponent := by
  have hlimbs : 64 * mpiDivLimbs = 67 + (64 * 9998 - 67) := rfl
  have hpow : 2 ^ 67 ≤ 2 ^ (64 * mpiDivLimbs) := Nat.pow_le_pow_right (by decide) (by omega)
  have habs := wideExponent_natAbs
  have hcast : wideExponent = (wideExponent.natAbs : Int) := by
    unfold wideExponent
    have hone : (1 : Int) ≤ 2 ^ (64 * mpiDivLimbs) := one_le_pow₀ (by decide)
    omega
  omega

theorem wideKey_check : mbedtlsRsaCheckPrivkey .crt wideKey = .ok () := by
  obtain ⟨hpos, hlt, _⟩ := wideExponent_bounds
  exact keyWithDP_check hpos hlt (Nat.le_refl _) wideExponent_mod

theorem mbedtlsRsaCheckPrivkey_error {build : Build} {ctx : MbedtlsRsaContext w}
    (h : mbedtlsRsaCheckPrivkey build ctx ≠ .ok ()) :
    mbedtlsRsaCheckPrivkey build ctx = .error .keyCheckFailed := by
  unfold mbedtlsRsaCheckPrivkey at h ⊢
  split
  · rfl
  next hfirst =>
  rw [if_neg hfirst] at h
  split
  · rfl
  next hparams =>
  rw [if_neg hparams] at h
  split
  · rfl
  · next hcrt =>
    rw [if_neg hcrt] at h
    exact absurd rfl h

theorem wideKey_readBack {rsa : MbedtlsRsaContext 64}
    (h : ReadBack .crt wideKey.N wideKey.E wideKey.D wideKey.P wideKey.Q wideKey.DP wideKey.DQ
      wideKey.QP rsa) :
    mbedtlsRsaCheckPrivkey .crt rsa ≠ .ok () := by
  intro hcheck
  obtain ⟨hpos, hlt, hbig⟩ := wideExponent_bounds
  obtain ⟨hDP, hDPval⟩ := keyWithDP_DP hpos hlt
  obtain ⟨hD, hDval⟩ := keyWithDP_exponent mpiDivLimbs wideExponent
  obtain ⟨⟨hP, hPval⟩, hQ, hQval⟩ := keyWithDP_primes mpiDivLimbs wideExponent
  obtain ⟨_, hcontext, _, hvalidate⟩ := mbedtlsRsaCheckPrivkey_eq_ok.mp hcheck
  obtain ⟨hrDP, hrDQ, hrQP⟩ := h.crt rfl
  have hsDP := (hrDP.of_positive hDP).2.toInt
  have hsD := (h.D.of_positive hD).2.toInt
  have hsP := (h.P.of_positive hP).2.toInt
  have hsQ := (h.Q.of_positive hQ).2.toInt
  have hrsaD : rsa.D.toInt = 2 ^ 65 - 1 := by
    rw [← hsD]
    exact hDval
  have hrsaP : rsa.P.toInt = 2 ^ 64 + 1 := by
    rw [← hsP]
    exact hPval
  have hrsaQ : rsa.Q.toInt = 2 ^ 65 + 1 := by
    rw [← hsQ]
    exact hQval
  obtain ⟨hpDP, hpDQ, hpQP⟩ := crt_pos hcontext
  -- the check divides `DP - D` by `P - 1`, which limits the limbs of `DP`
  have hdivided := (of_mbedtlsRsaValidateCrt (show 1 < rsa.P.toInt by rw [hrsaP]; decide)
    (show 1 < rsa.Q.toInt by rw [hrsaQ]; decide) (show 0 < rsa.D.toInt by rw [hrsaD]; decide)
    hpDP hpDQ hpQP (hvalidate rfl)).2.1
  have hn : rsa.DP.n ≤ mpiDivLimbs := by
    apply hdivided
    · show rsa.D.toInt ≤ rsa.DP.toInt
      omega
    · show rsa.P.toInt - 1 ≤ rsa.DP.toInt - rsa.D.toInt
      omega
  -- the exponent fills its limbs, so that the sign byte takes one more
  have hsize : wideKey.DP.abs.size = 64 * mpiDivLimbs := by
    have habs : wideKey.DP.abs = 2 ^ (64 * mpiDivLimbs) - 1 := by
      have hcast : (wideKey.DP.abs : Int) = wideExponent := hDP.toInt.symm.trans hDPval
      rw [← wideExponent_natAbs, ← hcast, Int.natAbs_natCast]
    have hlow : 64 * mpiDivLimbs - 1 < wideKey.DP.abs.size := by
      rw [Nat.lt_size, habs]
      have hsplit : 64 * mpiDivLimbs = (64 * mpiDivLimbs - 1) + 1 := rfl
      rw [hsplit, Nat.pow_succ, Nat.add_sub_cancel]
      have hdouble : ∀ y : Nat, 1 ≤ y → y ≤ y * 2 - 1 := by
        intro y hy
        omega
      exact hdouble _ Nat.one_le_two_pow
    have hhigh : wideKey.DP.abs.size ≤ 64 * mpiDivLimbs := by
      rw [Nat.size_le, habs]
      exact Nat.sub_lt (Nat.two_pow_pos _) (by decide)
    omega
  have hlimbs : mpiDivLimbs = 9998 := rfl
  rw [hrDP.n, length_integerBytes, hsize, hlimbs] at hn
  exact absurd hn (by decide)

/-! ## The round trips -/

/-- A key that passes the checks is written, but what was written is not parsed. -/
theorem rsa_key_round_trip_wide_exponent :
    Signed .crt wideKey ∧ mbedtlsRsaCheckPrivkey .crt wideKey = .ok () ∧
      wideKey.len * 8 ≤ psaVendorRsaMaxKeyBits ∧
      WritesBack (mbedtlsRsaWriteKey .crt wideKey) wideKeyDer ∧
      (mbedtlsRsaParseKey .crt false (.init : MbedtlsRsaContext 64) wideKeyDer).ret =
        some .keyCheckFailed := by
  obtain ⟨hpos, hlt, _⟩ := wideExponent_bounds
  have hs : Signed .crt wideKey := keyWithDP_signed hpos hlt
  have hlen : wideKey.len * 8 ≤ psaVendorRsaMaxKeyBits := by decide
  have hfacts := keyFacts hs wideKey_check hlen
  have hcrt := crtFacts (.inr rfl) hs wideKey_check hlen
  refine ⟨hs, wideKey_check, hlen, ?_, ?_⟩
  · rcases mbedtlsRsaWriteKey_roundTrip (.inr rfl) false hs wideKey_check hlen with
      ⟨hbuild, _⟩ | ⟨DP, DQ, QP, hwrite, _, hsame, _⟩
    · exact Build.noConfusion hbuild
    · obtain ⟨rfl, rfl, rfl⟩ := hsame rfl
      exact hwrite
  · have hQP : limbCount 64 wideKey.QP.toInt ≤ mpiDivLimbs :=
      Nat.le_trans (Nat.le_add_right _ _) hcrt.QP_limbs
    have hXs := hfacts.writable (.inr rfl)
      ⟨writable_of_limbs (by decide) hcrt.DP hcrt.DP_limbs, hcrt.DP.abs_pos⟩
      ⟨writable_of_limbs (by decide) hcrt.DQ hcrt.DQ_limbs, hcrt.DQ.abs_pos⟩
      ⟨writable_of_limbs (by decide) hcrt.QP hQP, hcrt.QP.abs_pos⟩
    obtain ⟨rsa, hparse, hread⟩ := mbedtlsRsaParseKey_derKey (.inr rfl) .crt false .init hXs
    have hlen' : rsa.len = wideKey.len := by
      rw [hread.len, hfacts.pub.len, (hread.N.of_positive hfacts.N).2.size]
    have herror := mbedtlsRsaCheckPrivkey_error (wideKey_readBack hread)
    unfold wideKeyDer
    rw [hparse]
    unfold parseKeyEnd
    rw [hlen', if_neg (by omega), herror]
    rfl

/-- What is written for a key is read back, only RSA keys in DER that pass the checks are
accepted, and a failure leaves no parameter. -/
theorem rsa_key_round_trip (hw : w = 32 ∨ w = 64) (build : Build) (isBigEndian : Bool) :
    (∀ ctx : MbedtlsRsaContext w, Signed build ctx →
      mbedtlsRsaCheckPrivkey build ctx = .ok () → ctx.len * 8 ≤ psaVendorRsaMaxKeyBits →
        (build = .noCrt ∧ ∃ e, ∀ p, mbedtlsRsaWriteKey build ctx p = p.returns (.error e)) ∨
          KeyRoundTrip build isBigEndian ctx) ∧
    (∀ ctx : MbedtlsRsaContext w, (ctx.N.s = 1 ∨ ctx.N.s = -1) → (ctx.E.s = 1 ∨ ctx.E.s = -1) →
      mbedtlsRsaCheckPubkey build ctx = .ok () →
        WritesBack (mbedtlsRsaWritePubkey ctx) (derPubkey ctx) ∧
          ∃ rsa, mbedtlsRsaParsePubkey build isBigEndian .init (derPubkey ctx) = ⟨none, rsa⟩ ∧
            SamePublic ctx rsa) ∧
    (∀ (key : ByteString) (rsa : MbedtlsRsaContext w),
      mbedtlsRsaParseKey build isBigEndian .init key = ⟨none, rsa⟩ →
        ∃ version n e d p q dp dq qp,
          IsSequence [version, n, e, d, p, q, dp, dq, qp] key ∧ version ≠ [] ∧
          ofBE version = 0 ∧ PrivateKeyFields build rsa n e d p q dp dq qp ∧
          mbedtlsRsaCheckPrivkey build rsa = .ok () ∧ rsa.len * 8 ≤ psaVendorRsaMaxKeyBits) ∧
    (∀ (key : ByteString) (rsa : MbedtlsRsaContext w),
      mbedtlsRsaParsePubkey build isBigEndian .init key = ⟨none, rsa⟩ →
        ∃ n e, IsSequence [n, e] key ∧ ReadFrom n rsa.N ∧ ReadFrom e rsa.E ∧
          mbedtlsRsaCheckPubkey build rsa = .ok ()) ∧
    (∀ (key : ByteString) (rsa : MbedtlsRsaContext w), NoParameters rsa →
      FreedOnFailure (mbedtlsRsaParseKey build isBigEndian rsa key) ∧
        FreedOnFailure (mbedtlsRsaParsePubkey build isBigEndian rsa key)) := by
  refine ⟨?_, ?_, ?_, ?_, ?_⟩
  · intro ctx hs hcheck hlen
    exact mbedtlsRsaWriteKey_roundTrip hw isBigEndian hs hcheck hlen
  · intro ctx hsN hsE hcheck
    exact mbedtlsRsaWritePubkey_roundTrip hw build isBigEndian hsN hsE hcheck
  · intro key rsa h
    exact of_mbedtlsRsaParseKey hw h
  · intro key rsa h
    exact of_mbedtlsRsaParsePubkey hw h
  · intro key rsa hrsa
    exact ⟨mbedtlsRsaParseKey_freed build isBigEndian hrsa key,
      mbedtlsRsaParsePubkey_freed build isBigEndian hrsa key⟩

/-- A key with a reduced exponent is read back. -/
theorem rsa_key_round_trip_reduced_exponent :
    ∃ DP DQ QP : MbedtlsMpi 64, ∃ rsa,
      mbedtlsRsaParseKey .crt false .init (derKey [QP, DQ, DP, (keyWithDP 1 (2 ^ 64 - 1)).Q,
        (keyWithDP 1 (2 ^ 64 - 1)).P, (keyWithDP 1 (2 ^ 64 - 1)).D,
        (keyWithDP 1 (2 ^ 64 - 1)).E, (keyWithDP 1 (2 ^ 64 - 1)).N]) = ⟨none, rsa⟩ ∧
      SameKey .crt (keyWithDP 1 (2 ^ 64 - 1)) rsa := by
  have hs : Signed .crt (keyWithDP 1 (2 ^ 64 - 1)) := keyWithDP_signed (by decide) (by decide)
  have hcheck : mbedtlsRsaCheckPrivkey .crt (keyWithDP 1 (2 ^ 64 - 1)) = .ok () :=
    keyWithDP_check (by decide) (by decide) (by decide) (by decide)
  have hsize : ∀ {X : MbedtlsMpi 64}, X.abs < 2 ^ 128 → X.abs.size < 64 * mpiDivLimbs := by
    intro X hX
    have hle := Nat.size_le.mpr hX
    have hlimbs : mpiDivLimbs = 9998 := rfl
    omega
  rcases (rsa_key_round_trip (.inr rfl) .crt false).1 (keyWithDP 1 (2 ^ 64 - 1)) hs hcheck
    (by decide) with ⟨hbuild, _⟩ | ⟨DP, DQ, QP, _, _, _, hparse⟩
  · exact Build.noConfusion hbuild
  · obtain ⟨rsa, hret, hsame⟩ := hparse fun _ =>
      ⟨hsize (by decide +kernel), hsize (by decide +kernel)⟩
    exact ⟨DP, DQ, QP, rsa, hret, hsame⟩

end TfPsaCrypto.RsaDer
