import TfPsaCrypto.Builtin.RsaDerReadBack

/-!
# The DER encoding of RSA keys

The two kinds of keys and the two builds: what is written, that it is read back, what is accepted,
and what a failure leaves.
-/

namespace TfPsaCrypto.RsaDer

open Bytes Der Limbs
open RsaPrivate (Build mbedtlsMpiMaxSize)

variable {w : Nat}

/-! ## CRT parameters of the context -/

variable {ctx : MbedtlsRsaContext w} {X : MbedtlsMpi w}

structure CrtFacts (ctx : MbedtlsRsaContext w) : Prop where
  DP : Positive ctx.DP
  DQ : Positive ctx.DQ
  QP : Positive ctx.QP
  values : CrtValues ctx.P.toInt ctx.Q.toInt ctx.D.toInt ctx.DP.toInt ctx.DQ.toInt ctx.QP.toInt
  DP_limbs : limbCount w ctx.DP.toInt ≤ mpiDivLimbs
  DQ_limbs : limbCount w ctx.DQ.toInt ≤ mpiDivLimbs
  QP_limbs : limbCount w ctx.QP.toInt + limbCount w ctx.Q.toInt ≤ mpiDivLimbs

theorem KeyFacts.limbCount_exponent (hw : w = 32 ∨ w = 64) (h : KeyFacts ctx) {P : MbedtlsMpi w}
    (hX : Positive X) (hP : P.toInt ≤ ctx.N.toInt)
    (hn : ctx.D.toInt ≤ X.toInt → P.toInt - 1 ≤ X.toInt - ctx.D.toInt → X.n ≤ mpiDivLimbs) :
    limbCount w X.toInt ≤ mpiDivLimbs := by
  have hw0 : 0 < w := by omega
  have hD := h.values.D_lt
  by_cases hdivided : ctx.D.toInt ≤ X.toInt ∧ P.toInt - 1 ≤ X.toInt - ctx.D.toInt
  · exact (hX.small hw0 (hn hdivided.1 hdivided.2)).val_le
  have hlimbs : mpiDivLimbs = 9998 := rfl
  have hbits : psaVendorRsaMaxKeyBits = 4096 := rfl
  have hXabs := hX.toInt
  have hNabs := h.N.toInt
  have hN := Nat.size_le.mp h.size
  have hsize : X.abs.size ≤ psaVendorRsaMaxKeyBits + 1 := by
    rw [Nat.size_le, Nat.pow_succ]
    omega
  unfold limbCount
  rw [hX.toInt, Int.natAbs_natCast]
  rcases hw with rfl | rfl <;> omega

theorem crtFacts (hw : w = 32 ∨ w = 64) (hs : Signed .crt ctx)
    (h : mbedtlsRsaCheckPrivkey .crt ctx = .ok ()) (hlen : ctx.len * 8 ≤ psaVendorRsaMaxKeyBits) :
    CrtFacts ctx := by
  have hfacts := keyFacts hs h hlen
  obtain ⟨_, hcontext, _, hvalidate⟩ := mbedtlsRsaCheckPrivkey_eq_ok.mp h
  obtain ⟨hsDP, hsDQ, hsQP⟩ := hs.crt rfl
  obtain ⟨hpDP, hpDQ, hpQP⟩ := crt_pos hcontext
  have hDP := positive_of_sign hsDP hpDP
  have hDQ := positive_of_sign hsDQ hpDQ
  have hQP := positive_of_sign hsQP hpQP
  have hD := hfacts.values.one_lt_D
  have hQ := hfacts.values.one_lt_Q
  obtain ⟨hvalues, hnDP, hnDQ, hnQP⟩ := of_mbedtlsRsaValidateCrt hfacts.values.one_lt_P hQ
    (Int.lt_trans Int.one_pos hD) hpDP hpDQ hpQP (hvalidate rfl)
  refine ⟨hDP, hDQ, hQP, hvalues, hfacts.limbCount_exponent hw hDP hfacts.P_le hnDP,
    hfacts.limbCount_exponent hw hDQ hfacts.Q_le hnDQ, ?_⟩
  by_cases hdivided : ctx.P.toInt ≤ ctx.QP.toInt * ctx.Q.toInt - 1
  · exact hnQP hdivided
  have hlimbs : mpiDivLimbs = 9998 := rfl
  have hrsa : rsaLimbs = 129 := rfl
  have hle : ctx.QP.toInt ≤ ctx.QP.toInt * ctx.Q.toInt :=
    le_mul_of_one_le_right (by omega) (by omega)
  have hP := hfacts.P_le
  have hsizeQ := hfacts.size_le hfacts.Q hfacts.Q_le
  have hsizeQP := hfacts.size_le hQP (by omega)
  have hcountQ : limbCount w ctx.Q.toInt ≤ rsaLimbs :=
    limbCount_of_size hw (by rw [hfacts.Q.toInt]; exact hsizeQ)
  have hcountQP : limbCount w ctx.QP.toInt ≤ rsaLimbs :=
    limbCount_of_size hw (by rw [hQP.toInt]; exact hsizeQP)
  omega

/-! ## CRT parameters that are recomputed -/

theorem positive_mpi {X : MpiNum} (hw : 0 < w) (hpos : 0 < X.val)
    (hn : limbCount w X.val ≤ X.n) : Positive (X.mpi w) ∧ (X.mpi w).toInt = X.val := by
  have habs : (X.mpi w).abs = X.val.natAbs := value_ofNat_of_lt ((limbCount_le hw).mp hn)
  have hs : (X.mpi w).s = 1 := if_neg (by omega)
  have htoInt : (X.mpi w).toInt = (X.mpi w).abs := by
    unfold MbedtlsMpi.toInt
    rw [hs, Int.one_mul]
  refine ⟨⟨hs, htoInt, by omega⟩, ?_⟩
  rw [htoInt, habs]
  omega

theorem Positive.n_pos (h : Positive X) : 0 < X.n := by
  rw [Nat.pos_iff_ne_zero]
  intro hzero
  have hnil : X.p = [] := List.length_eq_zero_iff.mp hzero
  have habs : X.abs = 0 := by
    unfold MbedtlsMpi.abs
    rw [hnil]
    rfl
  have hpos := h.abs_pos
  omega

theorem of_mbedtlsMpiModMpi_limbs {X A B Z : MpiNum} (hA : 0 ≤ A.val) (hn : 0 < A.n)
    (h : mbedtlsMpiModMpi w X A B = .ok Z) : limbCount w Z.val ≤ Z.n := by
  have hval := (of_mbedtlsMpiModMpi h).2.1
  unfold mbedtlsMpiModMpi at h
  split at h
  · exact absurd h (by simp)
  split at h
  · exact absurd h (by simp)
  split at h
  · exact absurd h (by simp)
  · obtain ⟨_, _, hle, _⟩ := MpiNum.of_grow h
    rw [if_neg (by omega)] at hle
    rw [hval, ← Int.tmod_eq_emod_of_nonneg hA]
    exact Nat.le_trans (Nat.le_trans (Nat.le_max_right _ _) (Nat.le_max_left _ _)) hle

theorem exponent_pos {D E P : Int} (hP : 2 < P) (h : (D * E - 1) % (P - 1) = 0) :
    0 < D % (P - 1) := by
  have hnonneg := Int.emod_nonneg D (show P - 1 ≠ 0 by omega)
  rcases Int.lt_or_eq_of_le hnonneg with hpos | hzero
  · exact hpos
  · have hdvd : P - 1 ∣ D * E := Dvd.dvd.mul_right (Int.dvd_of_emod_eq_zero hzero.symm) E
    have hone : P - 1 ∣ D * E - (D * E - 1) := Int.dvd_sub hdvd (Int.dvd_of_emod_eq_zero h)
    have hle := Int.le_of_dvd (by omega) hone
    omega

theorem KeyFacts.two_lt (h : KeyFacts ctx) : 2 < ctx.P.toInt ∧ 2 < ctx.Q.toInt := by
  have hP := h.values.one_lt_P
  have hQ := h.values.one_lt_Q
  have hodd := h.pub.N_odd
  unfold mpiBit0 at hodd
  rw [Nat.testBit_zero, decide_eq_true_eq] at hodd
  have hN := h.N.toInt
  have hmod : ctx.P.toInt * ctx.Q.toInt % 2 = 1 := by
    rw [h.values.modulus, hN]
    omega
  constructor
  · by_contra hle
    have htwo : ctx.P.toInt = 2 := by omega
    rw [htwo, Int.mul_emod_right] at hmod
    omega
  · by_contra hle
    have htwo : ctx.Q.toInt = 2 := by omega
    rw [htwo, Int.mul_emod_left] at hmod
    omega

structure CrtNumber (ctx : MbedtlsRsaContext w) (X : MpiNum) : Prop where
  pos : 0 < X.val
  lt : X.val < ctx.N.toInt
  limbs : limbCount w X.val ≤ X.n

theorem of_mbedtlsRsaDeduceCrt (hfacts : KeyFacts ctx) {DP DQ QP : MpiNum}
    (h : mbedtlsRsaDeduceCrt w ctx.P.num ctx.Q.num ctx.D.num = .ok (DP, DQ, QP)) :
    CrtNumber ctx DP ∧ CrtNumber ctx DQ ∧ CrtNumber ctx QP ∧
      CrtValues ctx.P.toInt ctx.Q.toInt ctx.D.toInt DP.val DQ.val QP.val := by
  obtain ⟨hP, hQ⟩ := hfacts.two_lt
  have hPN := hfacts.P_le
  have hQN := hfacts.Q_le
  have hD := hfacts.values.one_lt_D
  unfold mbedtlsRsaDeduceCrt at h
  simp only [bind_eq_ok, pure_eq_ok, Prod.mk.injEq] at h
  obtain ⟨K, hK, DP', hDP, K', hK', DQ', hDQ, QP', hQP, rfl, rfl, rfl⟩ := h
  have hKval := (of_mbedtlsMpiSubInt (show 0 < ctx.P.num.val from by
    show 0 < ctx.P.toInt; omega) hK).1
  have hKval' := (of_mbedtlsMpiSubInt (show 0 < ctx.Q.num.val from by
    show 0 < ctx.Q.toInt; omega) hK').1
  have hDPval := (of_mbedtlsMpiModMpi hDP).2.1
  have hDQval := (of_mbedtlsMpiModMpi hDQ).2.1
  have hDPlimbs := of_mbedtlsMpiModMpi_limbs (show 0 ≤ ctx.D.num.val from by
    show 0 ≤ ctx.D.toInt; omega) hfacts.D.n_pos hDP
  have hDQlimbs := of_mbedtlsMpiModMpi_limbs (show 0 ≤ ctx.D.num.val from by
    show 0 ≤ ctx.D.toInt; omega) hfacts.D.n_pos hDQ
  obtain ⟨hinverse, hnonneg, hlt, hlimbs⟩ := of_mbedtlsMpiInvModOdd hfacts.P.n_pos hQP
  rw [hKval] at hDPval
  rw [hKval'] at hDQval
  change DP'.val = ctx.D.toInt % (ctx.P.toInt - 1) at hDPval
  change DQ'.val = ctx.D.toInt % (ctx.Q.toInt - 1) at hDQval
  change ctx.Q.toInt * QP'.val % ctx.P.toInt = 1 at hinverse
  change QP'.val < ctx.P.toInt at hlt
  have hposDP := exponent_pos hP hfacts.values.inverse_P
  have hposDQ := exponent_pos hQ hfacts.values.inverse_Q
  have hltDP := Int.emod_lt_of_pos ctx.D.toInt (show 0 < ctx.P.toInt - 1 by omega)
  have hltDQ := Int.emod_lt_of_pos ctx.D.toInt (show 0 < ctx.Q.toInt - 1 by omega)
  have hposQP : 0 < QP'.val := by
    rcases Int.lt_or_eq_of_le hnonneg with hpos | hzero
    · exact hpos
    · rw [← hzero, Int.mul_zero, Int.zero_emod] at hinverse
      omega
  refine ⟨⟨by omega, by omega, hDPlimbs⟩, ⟨by omega, by omega, hDQlimbs⟩,
    ⟨hposQP, by omega, hlimbs⟩, ⟨?_, ?_, ?_⟩⟩
  · rw [hDPval]
    exact Int.emod_eq_zero_of_dvd (Int.dvd_emod_sub_self)
  · rw [hDQval]
    exact Int.emod_eq_zero_of_dvd (Int.dvd_emod_sub_self)
  · have hone : (1 : Int) % ctx.P.toInt = 1 := Int.emod_eq_of_lt (by decide) (by omega)
    rw [Int.mul_comm, Int.sub_emod, hinverse, hone, Int.sub_self, Int.zero_emod]

/-! ## Private keys -/

def KeyRoundTrip (build : Build) (isBigEndian : Bool) (ctx : MbedtlsRsaContext w) : Prop :=
  ∃ DP DQ QP : MbedtlsMpi w,
    WritesBack (mbedtlsRsaWriteKey build ctx)
      (derKey [QP, DQ, DP, ctx.Q, ctx.P, ctx.D, ctx.E, ctx.N]) ∧
    CrtValues ctx.P.toInt ctx.Q.toInt ctx.D.toInt DP.toInt DQ.toInt QP.toInt ∧
    (build = .crt → DP = ctx.DP ∧ DQ = ctx.DQ ∧ QP = ctx.QP) ∧
    ((build = .crt → ctx.DP.abs.size < w * mpiDivLimbs ∧ ctx.DQ.abs.size < w * mpiDivLimbs) →
      ∃ rsa, mbedtlsRsaParseKey build isBigEndian .init
          (derKey [QP, DQ, DP, ctx.Q, ctx.P, ctx.D, ctx.E, ctx.N]) = ⟨none, rsa⟩ ∧
        SameKey build ctx rsa)

theorem KeyFacts.writable (hw : w = 32 ∨ w = 64) (hfacts : KeyFacts ctx) {DP DQ QP : MbedtlsMpi w}
    (hDP : Writable DP ∧ 0 < DP.abs) (hDQ : Writable DQ ∧ 0 < DQ.abs)
    (hQP : Writable QP ∧ 0 < QP.abs) :
    ∀ X ∈ [QP, DQ, DP, ctx.Q, ctx.P, ctx.D, ctx.E, ctx.N], Writable X ∧ 0 < X.abs := by
  have hfit : ∀ {X : MbedtlsMpi w}, Positive X → X.toInt ≤ ctx.N.toInt →
      Writable X ∧ 0 < X.abs := fun hX hle =>
    ⟨writable_of_size hw hX.s (hfacts.size_le hX hle), hX.abs_pos⟩
  simp only [List.mem_cons, List.not_mem_nil, or_false, forall_eq_or_imp, forall_eq]
  exact ⟨hQP, hDQ, hDP, hfit hfacts.Q hfacts.Q_le, hfit hfacts.P hfacts.P_le,
    hfit hfacts.D (Int.le_of_lt hfacts.values.D_lt), hfit hfacts.E (Int.le_of_lt hfacts.pub.E_lt),
    hfit hfacts.N (Int.le_refl _)⟩

theorem CrtNumber.writable (hw : w = 32 ∨ w = 64) (hfacts : KeyFacts ctx) {X : MpiNum}
    (hX : CrtNumber ctx X) :
    (Writable (X.mpi w) ∧ 0 < (X.mpi w).abs) ∧ (X.mpi w).toInt = X.val := by
  obtain ⟨hpos, hval⟩ := positive_mpi (by omega) hX.pos hX.limbs
  have hlt := hX.lt
  exact ⟨⟨writable_of_size hw hpos.s (hfacts.size_le hpos (by omega)), hpos.abs_pos⟩, hval⟩

theorem KeyFacts.keyRoundTrip (hw : w = 32 ∨ w = 64) {build : Build} {isBigEndian : Bool}
    {ctx : MbedtlsRsaContext w} (hfacts : KeyFacts ctx) (hs : Signed build ctx)
    (hcheck : mbedtlsRsaCheckPrivkey build ctx = .ok ())
    (hlen : ctx.len * 8 ≤ psaVendorRsaMaxKeyBits) {DP DQ QP : MbedtlsMpi w}
    (hexport : exportedMpis build ctx = .ok [QP, DQ, DP, ctx.Q, ctx.P, ctx.D, ctx.E, ctx.N])
    (hDP : Writable DP ∧ 0 < DP.abs) (hDQ : Writable DQ ∧ 0 < DQ.abs)
    (hQP : Writable QP ∧ 0 < QP.abs)
    (hvalues : CrtValues ctx.P.toInt ctx.Q.toInt ctx.D.toInt DP.toInt DQ.toInt QP.toInt)
    (hcrt : build = .crt → DP = ctx.DP ∧ DQ = ctx.DQ ∧ QP = ctx.QP ∧
      limbCount w ctx.QP.toInt + limbCount w ctx.Q.toInt ≤ mpiDivLimbs) :
    KeyRoundTrip build isBigEndian ctx := by
  have hXs := hfacts.writable hw hDP hDQ hQP
  refine ⟨DP, DQ, QP, ?_, hvalues, ?_, ?_⟩
  · exact mbedtlsRsaWriteKey_writes hw hexport (Nat.le_refl _) fun X hX => (hXs X hX).1
  · intro hbuild
    obtain ⟨h₁, h₂, h₃, _⟩ := hcrt hbuild
    exact ⟨h₁, h₂, h₃⟩
  intro hlimbs
  obtain ⟨rsa, hparse, hread⟩ := mbedtlsRsaParseKey_derKey hw build isBigEndian .init hXs
  obtain ⟨hsame, hcheck'⟩ := hread.check hw hs hcheck hlen fun hbuild => by
    obtain ⟨h₁, h₂, h₃, hfits⟩ := hcrt hbuild
    exact ⟨h₁, h₂, h₃, (hlimbs hbuild).1, (hlimbs hbuild).2, hfits⟩
  refine ⟨rsa, ?_, hsame⟩
  rw [hparse]
  unfold parseKeyEnd
  rw [← hsame.len, if_neg (by omega), hcheck']
  rfl

theorem mbedtlsRsaWriteKey_roundTrip (hw : w = 32 ∨ w = 64) {build : Build} (isBigEndian : Bool)
    (hs : Signed build ctx) (hcheck : mbedtlsRsaCheckPrivkey build ctx = .ok ())
    (hlen : ctx.len * 8 ≤ psaVendorRsaMaxKeyBits) :
    (build = .noCrt ∧ ∃ e, ∀ p, mbedtlsRsaWriteKey build ctx p = p.returns (.error e)) ∨
      KeyRoundTrip build isBigEndian ctx := by
  have hw0 : 0 < w := by omega
  have hfacts := keyFacts hs hcheck hlen
  cases build with
  | crt =>
    right
    have hcrt := crtFacts hw hs hcheck hlen
    have hQP : limbCount w ctx.QP.toInt ≤ mpiDivLimbs :=
      Nat.le_trans (Nat.le_add_right _ _) hcrt.QP_limbs
    exact hfacts.keyRoundTrip hw hs hcheck hlen rfl
      ⟨writable_of_limbs hw0 hcrt.DP hcrt.DP_limbs, hcrt.DP.abs_pos⟩
      ⟨writable_of_limbs hw0 hcrt.DQ hcrt.DQ_limbs, hcrt.DQ.abs_pos⟩
      ⟨writable_of_limbs hw0 hcrt.QP hQP, hcrt.QP.abs_pos⟩ hcrt.values
      fun _ => ⟨rfl, rfl, rfl, hcrt.QP_limbs⟩
  | noCrt =>
    rcases hdeduce : mbedtlsRsaDeduceCrt w ctx.P.num ctx.Q.num ctx.D.num with
      e | ⟨DP, DQ, QP⟩
    · left
      refine ⟨rfl, .mpi e, fun p => ?_⟩
      unfold mbedtlsRsaWriteKey exportedMpis
      rw [hdeduce]
      rfl
    · right
      obtain ⟨hDP, hDQ, hQP, hvalues⟩ := of_mbedtlsRsaDeduceCrt hfacts hdeduce
      have hnumber : ∀ {X : MpiNum}, CrtNumber ctx X →
          (Writable (X.mpi w) ∧ 0 < (X.mpi w).abs) ∧ (X.mpi w).toInt = X.val :=
        fun hX => hX.writable hw hfacts
      apply hfacts.keyRoundTrip hw hs hcheck hlen _ (hnumber hDP).1 (hnumber hDQ).1 (hnumber hQP).1
      · rw [(hnumber hDP).2, (hnumber hDQ).2, (hnumber hQP).2]
        exact hvalues
      · intro hcrt
        exact Build.noConfusion hcrt
      · unfold exportedMpis
        rw [hdeduce]
        rfl

/-! ## Public keys -/

theorem importPubkeyMpi_derMpi (hw : w = 32 ∨ w = 64) (isBigEndian : Bool) (h : Writable X)
    (rsa : MbedtlsRsaContext w) (tail : ByteString) (k : ByteString → MbedtlsMpi w → RsaParsed w) :
    ∃ X' : MbedtlsMpi w, ReadFrom (integerBytes X.abs) X' ∧
      importPubkeyMpi isBigEndian rsa (derMpi X ++ tail) .init k = k tail X' := by
  obtain ⟨X', hread, hX'⟩ := mbedtlsMpiReadBinary_readFrom hw isBigEndian .init (h.limbs hw)
  refine ⟨X', hX', ?_⟩
  unfold importPubkeyMpi
  rw [(h.isElement hw).getTag tail]
  simp only [List.take_left, List.drop_left, hread]
  rfl

theorem PublicFacts.writable (hw : w = 32 ∨ w = 64) (hfacts : PublicFacts ctx) (hN : Positive ctx.N)
    (hE : Positive ctx.E) :
    Writable ctx.N ∧ Writable ctx.E := by
  have hlt := hfacts.E_lt
  have hlimbs : mpiDivLimbs = 9998 := rfl
  have hmax : mbedtlsMpiMaxSize = 1024 := rfl
  have hlen := hfacts.len
  have hle := hfacts.len_le
  unfold mbedtlsMpiSize at hlen
  rw [mbedtlsMpiBitlen_eq] at hlen
  have hsizeE : ctx.E.abs.size ≤ ctx.N.abs.size := by
    rw [hN.toInt, hE.toInt] at hlt
    exact Nat.size_le_size (by omega)
  exact ⟨⟨hN.s, by rcases hw with rfl | rfl <;> omega⟩,
    ⟨hE.s, by rcases hw with rfl | rfl <;> omega⟩⟩

theorem mbedtlsRsaWritePubkey_roundTrip (hw : w = 32 ∨ w = 64) (build : Build) (isBigEndian : Bool)
    (hsN : ctx.N.s = 1 ∨ ctx.N.s = -1) (hsE : ctx.E.s = 1 ∨ ctx.E.s = -1)
    (hcheck : mbedtlsRsaCheckPubkey build ctx = .ok ()) :
    WritesBack (mbedtlsRsaWritePubkey ctx) (derPubkey ctx) ∧
      ∃ rsa, mbedtlsRsaParsePubkey build isBigEndian .init (derPubkey ctx) = ⟨none, rsa⟩ ∧
        SamePublic ctx rsa := by
  have hfacts := of_mbedtlsRsaCheckPubkey hcheck
  have hN := positive_of_sign hsN hfacts.N_pos
  have hE := positive_of_sign hsE hfacts.E_pos
  obtain ⟨hNw, hEw⟩ := hfacts.writable hw hN hE
  refine ⟨mbedtlsRsaWritePubkey_writes hw hNw hEw, ?_⟩
  have hbody : derMpis [ctx.E, ctx.N] = derMpi ctx.N ++ (derMpi ctx.E ++ []) := by
    simp only [derMpis, List.nil_append, List.append_nil]
  have hXs : ∀ X ∈ [ctx.E, ctx.N], Writable X := by
    simp only [List.mem_cons, List.not_mem_nil, or_false, forall_eq_or_imp, forall_eq]
    exact ⟨hEw, hNw⟩
  have htotal := length_derMpis_le hw hXs
  have htag := (@isElement_element (derMpis [ctx.E, ctx.N]) asn1ConstructedSequence
    (Nat.lt_of_le_of_lt htotal (by simp))).getTag []
  rw [List.append_nil, List.append_nil] at htag
  unfold mbedtlsRsaParsePubkey derPubkey
  rw [htag]
  simp only [ne_eq, not_true_eq_false, if_false]
  rw [hbody]
  obtain ⟨N', hN', h₁⟩ := importPubkeyMpi_derMpi hw isBigEndian hNw
    (.init : MbedtlsRsaContext w) (derMpi ctx.E ++ []) _
  rw [h₁]
  obtain ⟨E', hE', h₂⟩ := importPubkeyMpi_derMpi hw isBigEndian hEw
    { (.init : MbedtlsRsaContext w) with len := mbedtlsMpiSize N', N := N' } [] _
  rw [h₂]
  have hsame : SamePublic ctx { (.init : MbedtlsRsaContext w) with
      len := mbedtlsMpiSize N', N := N', E := E' } := by
    refine ⟨?_, (hN'.of_positive hN).2, (hE'.of_positive hE).2⟩
    rw [hfacts.len, (hN'.of_positive hN).2.size]
  rw [mbedtlsRsaCheckPubkey_congr hsame] at hcheck
  refine ⟨_, ?_, hsame⟩
  simp only [hcheck]
  rfl

end TfPsaCrypto.RsaDer
