import TfPsaCrypto.Builtin.RsaDer

/-!
# Which RSA keys pass the checks

A key passes if its values are consistent and its numbers are small enough to be divided.
-/

namespace TfPsaCrypto.RsaDer

open Limbs
open RsaPrivate (Build mbedtlsMpiMaxSize)

variable {w : Nat}

/-! ## Steps -/

theorem bind_eq_ok {ε α β : Type} {x : Except ε α} {f : α → Except ε β} {b : β} :
    (x >>= f) = .ok b ↔ ∃ a, x = .ok a ∧ f a = .ok b := by
  cases x with
  | error e =>
    constructor
    · intro h
      exact Except.noConfusion rfl rfl (heq_of_eq h)
    · rintro ⟨a, ha, _⟩
      exact Except.noConfusion rfl rfl (heq_of_eq ha)
  | ok a =>
    constructor
    · intro h
      exact ⟨a, rfl, h⟩
    · rintro ⟨a', ha, h⟩
      rw [Except.ok.injEq] at ha
      subst ha
      exact h

theorem mpiChk_eq_ok {r : Except MpiError MpiNum} {Z : MpiNum} : mpiChk r = .ok Z ↔ r = .ok Z := by
  cases r with
  | error e => simp [mpiChk, Except.mapError]
  | ok X => simp [mpiChk, Except.mapError]

theorem rsaCheck_eq_ok {p : Prop} [Decidable p] {u : Unit} : rsaCheck p = .ok u ↔ p := by
  unfold rsaCheck
  split <;> simp [*]

theorem pure_eq_ok {ε α : Type} {a b : α} : (pure a : Except ε α) = .ok b ↔ a = b :=
  Except.ok.injEq a b ▸ Iff.rfl

/-! ## Exponents -/

section Exponents

variable {K L P D E X : MpiNum} {r : MpiNum × MpiNum}

theorem of_rsaCheckInverse (hP : 1 < P.val) (hDE : 0 < D.val * E.val)
    (h : rsaCheckInverse w K L P D E = .ok r) : (D.val * E.val - 1) % (P.val - 1) = 0 := by
  unfold rsaCheckInverse at h
  simp only [bind_eq_ok, mpiChk_eq_ok, rsaCheck_eq_ok] at h
  obtain ⟨K₁, hmul, K₂, hsub, L₁, hL, K₃, hmod, _, hzero, _⟩ := h
  obtain ⟨hK₁, _⟩ := of_mbedtlsMpiMulMpi hmul
  obtain ⟨hK₂, _⟩ := of_mbedtlsMpiSubInt (by omega) hsub
  obtain ⟨hL₁, _⟩ := of_mbedtlsMpiSubInt (by omega) hL
  obtain ⟨_, hK₃, _⟩ := of_mbedtlsMpiModMpi hmod
  rwa [hK₃, hK₂, hK₁, hL₁] at hzero

theorem rsaCheckInverse_of_small (hw : 0 < w) (hP : 1 < P.val) (hPs : P.Small w)
    (hDE : 0 < D.val * E.val) (hfits : limbCount w D.val + limbCount w E.val ≤ mpiDivLimbs)
    (hK : K.n ≤ mpiDivLimbs) (hL : L.n ≤ mpiDivLimbs)
    (hmod : (D.val * E.val - 1) % (P.val - 1) = 0) :
    ∃ K' L', rsaCheckInverse w K L P D E = .ok (K', L') ∧ K'.n ≤ mpiDivLimbs ∧
      L'.n ≤ mpiDivLimbs := by
  obtain ⟨K₁, hmul, hK₁, hsK₁⟩ := mbedtlsMpiMulMpi_of_le hw hfits hK
  obtain ⟨K₂, hsub, hK₂, hsK₂⟩ := mbedtlsMpiSubInt_of_small hw hsK₁ hsK₁.n_le (by omega)
  obtain ⟨L₁, hsubL, hL₁, hsL₁⟩ := mbedtlsMpiSubInt_of_small hw hPs hL (by omega)
  obtain ⟨K₃, hdiv, hK₃, hsK₃⟩ := mbedtlsMpiModMpi_of_small hw hsK₂ hsL₁ hsK₂.n_le (by omega)
  refine ⟨K₃, L₁, ?_, hsK₃.n_le, hsL₁.n_le⟩
  unfold rsaCheckInverse
  simp only [bind_eq_ok, mpiChk_eq_ok, rsaCheck_eq_ok]
  refine ⟨K₁, hmul, K₂, hsub, L₁, hsubL, K₃, hdiv, (), ?_, rfl⟩
  rwa [hK₃, hK₂, hK₁, hL₁]

theorem of_rsaCheckExponent (hP : 1 < P.val) (hD : 0 < D.val) (hX : 0 < X.val)
    (h : rsaCheckExponent w K L P D X = .ok r) :
    (X.val - D.val) % (P.val - 1) = 0 ∧
      (D.val ≤ X.val → P.val - 1 ≤ X.val - D.val → X.n ≤ mpiDivLimbs) := by
  unfold rsaCheckExponent at h
  simp only [bind_eq_ok, mpiChk_eq_ok, rsaCheck_eq_ok] at h
  obtain ⟨K₁, hsubK, L₁, hsub, L₂, hmod, _, hzero, _⟩ := h
  obtain ⟨hK₁, _⟩ := of_mbedtlsMpiSubInt (by omega) hsubK
  obtain ⟨hL₁, _, hn⟩ := of_mbedtlsMpiSubMpi (by omega) (by omega) hsub
  obtain ⟨_, hL₂, _, hdiv⟩ := of_mbedtlsMpiModMpi hmod
  rw [hL₂, hL₁, hK₁] at hzero
  refine ⟨hzero, ?_⟩
  intro hle hbig
  exact Nat.le_trans (hn hle) (hdiv (by omega))

theorem rsaCheckExponent_of_small (hw : 0 < w) (hP : 1 < P.val) (hPs : P.Small w)
    (hD : 0 ≤ D.val) (hDs : D.Small w) (hX : 0 ≤ X.val) (hXs : X.Small w)
    (hK : K.n ≤ mpiDivLimbs) (hL : L.n ≤ mpiDivLimbs)
    (hmod : (X.val - D.val) % (P.val - 1) = 0) :
    ∃ K' L', rsaCheckExponent w K L P D X = .ok (K', L') ∧ K'.n ≤ mpiDivLimbs ∧
      L'.n ≤ mpiDivLimbs := by
  obtain ⟨K₁, hsubK, hK₁, hsK₁⟩ := mbedtlsMpiSubInt_of_small hw hPs hK (by omega)
  obtain ⟨L₁, hsub, hL₁, hsL₁⟩ := mbedtlsMpiSubMpi_of_small hw hXs hDs hL hX hD
  obtain ⟨L₂, hdiv, hL₂, hsL₂⟩ := mbedtlsMpiModMpi_of_small hw hsL₁ hsK₁ hsL₁.n_le (by omega)
  refine ⟨K₁, L₂, ?_, hsK₁.n_le, hsL₂.n_le⟩
  unfold rsaCheckExponent
  simp only [bind_eq_ok, mpiChk_eq_ok, rsaCheck_eq_ok]
  refine ⟨K₁, hsubK, L₁, hsub, L₂, hdiv, (), ?_, rfl⟩
  rwa [hL₂, hL₁, hK₁]

end Exponents

/-! ## Keys -/

structure KeyValues (N E D P Q : Int) : Prop where
  modulus : P * Q = N
  one_lt_D : 1 < D
  one_lt_E : 1 < E
  D_lt : D < N
  E_lt : E < N
  one_lt_P : 1 < P
  one_lt_Q : 1 < Q
  inverse_P : (D * E - 1) % (P - 1) = 0
  inverse_Q : (D * E - 1) % (Q - 1) = 0

structure CrtValues (P Q D DP DQ QP : Int) : Prop where
  exponent_P : (DP - D) % (P - 1) = 0
  exponent_Q : (DQ - D) % (Q - 1) = 0
  coefficient : (QP * Q - 1) % P = 0

section Keys

variable {N E D P Q DP DQ QP : MpiNum}

theorem of_mbedtlsRsaValidateParams (h : mbedtlsRsaValidateParams w N P Q D E = .ok ()) :
    KeyValues N.val E.val D.val P.val Q.val := by
  unfold mbedtlsRsaValidateParams at h
  simp only [bind_eq_ok, mpiChk_eq_ok, rsaCheck_eq_ok] at h
  obtain ⟨K, hmul, _, hN, _, hexp, _, hprimes, r₁, hinvP, r₂, hinvQ, _⟩ := h
  obtain ⟨hK, _⟩ := of_mbedtlsMpiMulMpi hmul
  have hDE : 0 < D.val * E.val := Int.mul_pos (by omega) (by omega)
  exact {
    modulus := hK ▸ hN.2
    one_lt_D := by omega
    one_lt_E := by omega
    D_lt := by omega
    E_lt := by omega
    one_lt_P := by omega
    one_lt_Q := by omega
    inverse_P := of_rsaCheckInverse (by omega) hDE hinvP
    inverse_Q := of_rsaCheckInverse (by omega) hDE hinvQ }

theorem mbedtlsRsaValidateParams_of_small (hw : 0 < w)
    (h : KeyValues N.val E.val D.val P.val Q.val) (hP : P.Small w) (hQ : Q.Small w)
    (hPQ : limbCount w P.val + limbCount w Q.val ≤ mpiDivLimbs)
    (hDE : limbCount w D.val + limbCount w E.val ≤ mpiDivLimbs) :
    mbedtlsRsaValidateParams w N P Q D E = .ok () := by
  have hD := h.one_lt_D
  have hE := h.one_lt_E
  have hDN := h.D_lt
  have hEN := h.E_lt
  have hP1 := h.one_lt_P
  have hQ1 := h.one_lt_Q
  have hpos : 0 < D.val * E.val := Int.mul_pos (by omega) (by omega)
  obtain ⟨K, hmul, hK, hsK⟩ := @mbedtlsMpiMulMpi_of_le w .init P Q hw hPQ (Nat.zero_le _)
  obtain ⟨K₁, L₁, hinvP, hK₁, hL₁⟩ := @rsaCheckInverse_of_small w K .init P D E hw h.one_lt_P hP
    hpos hDE hsK.n_le (Nat.zero_le _) h.inverse_P
  obtain ⟨K₂, L₂, hinvQ, _, _⟩ := rsaCheckInverse_of_small hw h.one_lt_Q hQ hpos hDE hK₁ hL₁
    h.inverse_Q
  unfold mbedtlsRsaValidateParams
  simp only [bind_eq_ok, mpiChk_eq_ok, rsaCheck_eq_ok]
  refine ⟨K, hmul, (), ⟨by omega, by rw [hK, h.modulus]⟩, (), by omega, (), by omega,
    (K₁, L₁), hinvP, (K₂, L₂), hinvQ, rfl⟩

theorem of_mbedtlsRsaValidateCrt (hP : 1 < P.val) (hQ : 1 < Q.val) (hD : 0 < D.val)
    (hDP : 0 < DP.val) (hDQ : 0 < DQ.val) (hQP : 0 < QP.val)
    (h : mbedtlsRsaValidateCrt w P Q D DP DQ QP = .ok ()) :
    CrtValues P.val Q.val D.val DP.val DQ.val QP.val ∧
      (D.val ≤ DP.val → P.val - 1 ≤ DP.val - D.val → DP.n ≤ mpiDivLimbs) ∧
      (D.val ≤ DQ.val → Q.val - 1 ≤ DQ.val - D.val → DQ.n ≤ mpiDivLimbs) ∧
      (P.val ≤ QP.val * Q.val - 1 → limbCount w QP.val + limbCount w Q.val ≤ mpiDivLimbs) := by
  unfold mbedtlsRsaValidateCrt at h
  simp only [bind_eq_ok, mpiChk_eq_ok, rsaCheck_eq_ok] at h
  obtain ⟨r₁, hexpP, r₂, hexpQ, K₁, hmul, K₂, hsub, K₃, hmod, hzero⟩ := h
  obtain ⟨hDPmod, hDPn⟩ := of_rsaCheckExponent hP hD hDP hexpP
  obtain ⟨hDQmod, hDQn⟩ := of_rsaCheckExponent hQ hD hDQ hexpQ
  obtain ⟨hK₁, hn₁⟩ := of_mbedtlsMpiMulMpi hmul
  have hpos : 0 < QP.val * Q.val := Int.mul_pos hQP (by omega)
  obtain ⟨hK₂, hn₂, _⟩ := of_mbedtlsMpiSubInt (by omega) hsub
  obtain ⟨_, hK₃, _, hdiv⟩ := of_mbedtlsMpiModMpi hmod
  rw [hK₃, hK₂, hK₁] at hzero
  refine ⟨⟨hDPmod, hDQmod, hzero⟩, hDPn, hDQn, ?_⟩
  -- a dividend that is not less than the divisor has been divided, so that its limbs are limited
  intro hbig
  omega

theorem mbedtlsRsaValidateCrt_of_small (hw : 0 < w) (hP1 : 1 < P.val) (hQ1 : 1 < Q.val)
    (hD : 0 ≤ D.val) (hDP : 0 ≤ DP.val) (hDQ : 0 ≤ DQ.val) (hQP : 0 < QP.val)
    (h : CrtValues P.val Q.val D.val DP.val DQ.val QP.val)
    (hP : P.Small w) (hQ : Q.Small w) (hDs : D.Small w) (hDPs : DP.Small w) (hDQs : DQ.Small w)
    (hfits : limbCount w QP.val + limbCount w Q.val ≤ mpiDivLimbs) :
    mbedtlsRsaValidateCrt w P Q D DP DQ QP = .ok () := by
  have hpos : 0 < QP.val * Q.val := Int.mul_pos hQP (by omega)
  obtain ⟨K₁, L₁, hexpP, hK₁, hL₁⟩ := @rsaCheckExponent_of_small w .init .init P D DP hw hP1 hP hD
    hDs hDP hDPs (Nat.zero_le _) (Nat.zero_le _) h.exponent_P
  obtain ⟨K₂, L₂, hexpQ, hK₂, _⟩ := rsaCheckExponent_of_small hw hQ1 hQ hD hDs hDQ hDQs hK₁ hL₁
    h.exponent_Q
  obtain ⟨K₃, hmul, hK₃, hsK₃⟩ := mbedtlsMpiMulMpi_of_le hw hfits hK₂
  obtain ⟨K₄, hsub, hK₄, hsK₄⟩ := mbedtlsMpiSubInt_of_small hw hsK₃ hsK₃.n_le (by omega)
  obtain ⟨K₅, hmod, hK₅, _⟩ := mbedtlsMpiModMpi_of_small hw hsK₄ hP hsK₄.n_le (by omega)
  unfold mbedtlsRsaValidateCrt
  simp only [bind_eq_ok, mpiChk_eq_ok, rsaCheck_eq_ok]
  refine ⟨(K₁, L₁), hexpP, (K₂, L₂), hexpQ, K₃, hmul, K₄, hsub, K₅, hmod, ?_⟩
  rw [hK₅, hK₄, hK₃]
  exact h.coefficient

end Keys

end TfPsaCrypto.RsaDer
