import TfPsaCrypto.Builtin.Bignum
import TfPsaCrypto.Builtin.BignumBytesExact
import TfPsaCrypto.Builtin.EcpPrivateKey

/-!
# Round trip of private keys

`mbedtls_ecp_read_key` with the big number that it fills.
-/

namespace TfPsaCrypto.Ecp

open Bytes

variable {w : Nat}

/-! ## Reading -/

inductive ReadKeyError where
  | ecp (e : EcpError)
  | mpi (e : MpiError)
  deriving DecidableEq

def ecpReadScalarMpi (isBigEndian : Bool) (grp : EcpGroup) (X : MbedtlsMpi w)
    (buf : ByteString) : Except ReadKeyError Nat :=
  match mbedtlsEcpGetType grp with
  | .shortWeierstrass =>
    let read := mbedtlsMpiReadBinary isBigEndian X buf
    match read.ret with
    | some e => .error (.mpi e)
    | none => .ok read.X.abs
  | _ => (ecpReadScalar grp buf).mapError .ecp

/-- `mbedtls_ecp_read_key`, into a key whose scalar was `X`. -/
def mbedtlsEcpReadKeyMpi (isBigEndian : Bool) (modp : EcpGroupId → Option (Int → Int))
    (grpId : EcpGroupId) (X : MbedtlsMpi w) (buf : ByteString) :
    Except ReadKeyError (EcpGroup × Nat) :=
  match mbedtlsEcpGroupLoad modp grpId with
  | .error e => .error (.ecp e)
  | .ok grp =>
    match ecpReadScalarMpi isBigEndian grp X buf with
    | .error e => .error e
    | .ok d =>
      match mbedtlsEcpCheckPrivkey grp d with
      | .error e => .error (.ecp e)
      | .ok () => .ok (grp, d)

def HasLimbs (w : Nat) (grp : EcpGroup) (buf : ByteString) : Prop :=
  mbedtlsEcpGetType grp = .shortWeierstrass → charsToLimbs w buf.length ≤ mbedtlsMpiMaxLimbs

def ReadableKey (w : Nat) (grp : EcpGroup) (buf : ByteString) : Prop :=
  match mbedtlsEcpGetType grp with
  | .shortWeierstrass =>
    charsToLimbs w buf.length ≤ mbedtlsMpiMaxLimbs ∧ 1 ≤ ofBE buf ∧ ofBE buf < grp.N
  | _ => grp.id = .curve25519 ∧ buf.length = 32 ∨ grp.id = .curve448 ∧ buf.length = 56

def ClampedScalar (grp : EcpGroup) (buf : ByteString) (d : Nat) : Prop :=
  (grp.id = .curve25519 → ∀ i, d.testBit i =
    if i = 254 then true else if i = 255 ∨ i < 3 then false else (ofLE buf).testBit i) ∧
  (grp.id = .curve448 → ∀ i, d.testBit i =
    if i = 447 then true else if i < 2 then false else (ofLE buf).testBit i)

/-! ## The limit on the limbs -/

theorem mbedtlsMpiReadBinary_of_gt {isBigEndian : Bool} {X : MbedtlsMpi w} {buf : ByteString}
    (hn : X.n ≤ mbedtlsMpiMaxLimbs) (h : mbedtlsMpiMaxLimbs < charsToLimbs w buf.length) :
    (mbedtlsMpiReadBinary isBigEndian X buf).ret = some .allocFailed := by
  have hresize : mbedtlsMpiResizeClear X (charsToLimbs w buf.length) =
      MbedtlsMpi.init.returns (some .allocFailed) := by
    unfold mbedtlsMpiResizeClear mbedtlsMpiGrow
    rw [if_neg (by omega), if_neg (by omega), if_pos h]
  unfold mbedtlsMpiReadBinary
  simp only [hresize]
  rw [if_pos (by simp [MbedtlsMpi.returns])]
  rfl

variable {modp : EcpGroupId → Option (Int → Int)} {id : EcpGroupId} {grp : EcpGroup}
  {isBigEndian : Bool} {X : MbedtlsMpi w} {buf : ByteString}

section Limbs

variable (hw : w = 32 ∨ w = 64)

include hw

theorem ecpReadScalarMpi_eq (h : HasLimbs w grp buf) :
    ecpReadScalarMpi isBigEndian grp X buf = (ecpReadScalar grp buf).mapError .ecp := by
  have hbytes : 0 < ciL w ∧ w = 8 * ciL w := by
    unfold ciL
    omega
  unfold ecpReadScalarMpi
  split
  · next htype =>
    obtain ⟨Y, hread, _, _, habs⟩ :=
      mbedtlsMpiReadBinary_of_le hbytes.1 hbytes.2 isBigEndian X (h htype)
    simp only [hread, MbedtlsMpi.returns, habs]
    unfold ecpReadScalar
    rw [htype]
    rfl
  · rfl

theorem mbedtlsEcpReadKeyMpi_eq (hload : mbedtlsEcpGroupLoad modp id = .ok grp)
    (h : HasLimbs w grp buf) :
    mbedtlsEcpReadKeyMpi isBigEndian modp id X buf =
      (mbedtlsEcpReadKey modp id buf).mapError .ecp := by
  unfold mbedtlsEcpReadKeyMpi mbedtlsEcpReadKey
  rw [hload]
  dsimp only
  rw [ecpReadScalarMpi_eq hw h]
  rcases ecpReadScalar grp buf with e | d
  · rfl
  · dsimp only [Except.mapError]
    rcases mbedtlsEcpCheckPrivkey grp d with e | u <;> rfl

theorem hasLimbs_of_length (h : buf.length ≤ mbedtlsMpiMaxLimbs) : HasLimbs w grp buf := by
  intro _
  have hbytes : 0 < ciL w := by
    unfold ciL
    omega
  rw [charsToLimbs_le_iff hbytes]
  exact le_trans h (Nat.le_mul_of_pos_right _ hbytes)

end Limbs

theorem mbedtlsEcpReadKeyMpi_noLimbs (hload : mbedtlsEcpGroupLoad modp id = .ok grp)
    (hn : X.n ≤ mbedtlsMpiMaxLimbs) (h : ¬ HasLimbs w grp buf) :
    mbedtlsEcpReadKeyMpi isBigEndian modp id X buf = .error (.mpi .allocFailed) := by
  obtain ⟨htype, hlimbs⟩ := Classical.not_imp.mp h
  unfold mbedtlsEcpReadKeyMpi ecpReadScalarMpi
  rw [hload]
  dsimp only
  rw [htype]
  rw [mbedtlsMpiReadBinary_of_gt hn (not_le.mp hlimbs)]

/-! ## What is read -/

theorem maskCurve448_scalar {e : Nat} (he : e < 256 ^ 56) :
    MontgomeryScalar 447 (maskCurve448 e) := by
  constructor
  · apply Nat.lt_pow_two_of_testBit
    intro i hi
    rw [testBit_maskCurve448, if_neg (by omega), if_neg (by omega)]
    have hle : 2 ^ (8 * 56) ≤ 2 ^ i := Nat.pow_le_pow_right (by decide) (by omega)
    rw [pow_mul] at hle
    exact Nat.testBit_lt_two_pow (lt_of_lt_of_le he hle)
  · rw [testBit_maskCurve448, if_pos rfl]
  · rw [testBit_maskCurve448]
    rfl
  · rw [testBit_maskCurve448]
    rfl
  · intro h
    cases h

theorem mbedtlsEcpReadKey_ok_iff {g : EcpGroup} {d : Nat}
    (hload : mbedtlsEcpGroupLoad modp id = .ok grp) :
    mbedtlsEcpReadKey modp id buf = .ok (g, d) ↔
      g = grp ∧ ecpReadScalar grp buf = .ok d ∧ mbedtlsEcpCheckPrivkey grp d = .ok () := by
  unfold mbedtlsEcpReadKey
  rw [hload]
  dsimp only
  rcases ecpReadScalar grp buf with e | k
  · simp
  dsimp only
  rcases hcheck : mbedtlsEcpCheckPrivkey grp k with e | u
  · simp only [reduceCtorEq, false_iff]
    rintro ⟨_, hk, hd⟩
    cases hk
    rw [hcheck] at hd
    cases hd
  · simp only [Except.ok.injEq, Prod.mk.injEq]
    constructor
    · rintro ⟨rfl, rfl⟩
      exact ⟨rfl, rfl, hcheck⟩
    · rintro ⟨rfl, rfl, _⟩
      exact ⟨rfl, rfl⟩

theorem readKey_weierstrass_iff (hload : mbedtlsEcpGroupLoad modp id = .ok grp)
    (htype : mbedtlsEcpGetType grp = .shortWeierstrass) :
    (∃ key, mbedtlsEcpReadKey modp id buf = .ok key) ↔ 1 ≤ ofBE buf ∧ ofBE buf < grp.N := by
  have hscalar : ecpReadScalar grp buf = .ok (ofBE buf) := by
    unfold ecpReadScalar
    rw [htype]
  have hcheck : mbedtlsEcpCheckPrivkey grp (ofBE buf) = .ok () ↔
      1 ≤ ofBE buf ∧ ofBE buf < grp.N := by
    unfold mbedtlsEcpCheckPrivkey
    rw [htype]
    dsimp only
    split
    · next hout => simp only [reduceCtorEq, false_iff]; omega
    · next hin => simp only [true_iff]; omega
  constructor
  · rintro ⟨⟨g, d⟩, hread⟩
    obtain ⟨_, hd, hd'⟩ := (mbedtlsEcpReadKey_ok_iff hload).mp hread
    rw [hscalar] at hd
    cases hd
    exact hcheck.mp hd'
  · intro hrange
    exact ⟨(grp, ofBE buf), (mbedtlsEcpReadKey_ok_iff hload).mpr ⟨rfl, hscalar, hcheck.mpr hrange⟩⟩

theorem readKey_montgomery (hload : mbedtlsEcpGroupLoad modp id = .ok grp) {len : Nat}
    {mask : Nat → Nat} (hscalar : ecpReadScalar grp buf =
      if buf.length ≠ len then .error .invalidKey else .ok (mask (ofLE buf)))
    (hmask : ∀ e, e < 256 ^ len → mbedtlsEcpCheckPrivkey grp (mask e) = .ok ()) :
    ((∃ key, mbedtlsEcpReadKey modp id buf = .ok key) ↔ buf.length = len) ∧
      ∀ g d, mbedtlsEcpReadKey modp id buf = .ok (g, d) → d = mask (ofLE buf) := by
  have hvalue : ∀ g d, mbedtlsEcpReadKey modp id buf = .ok (g, d) →
      buf.length = len ∧ d = mask (ofLE buf) := by
    intro g d hread
    obtain ⟨_, hd, _⟩ := (mbedtlsEcpReadKey_ok_iff hload).mp hread
    rw [hscalar] at hd
    split at hd
    · cases hd
    · next hlen =>
      cases hd
      exact ⟨not_not.mp hlen, rfl⟩
  refine ⟨⟨fun ⟨key, hread⟩ => (hvalue key.1 key.2 hread).1, fun hlen => ?_⟩,
    fun g d hread => (hvalue g d hread).2⟩
  refine ⟨(grp, mask (ofLE buf)), (mbedtlsEcpReadKey_ok_iff hload).mpr ⟨rfl, ?_, hmask _ ?_⟩⟩
  · rw [hscalar, if_neg (not_not.mpr hlen)]
  · rw [← hlen]
    exact ofLE_lt buf

theorem readKey_curve25519 (hload : mbedtlsEcpGroupLoad modp id = .ok grp)
    (htype : mbedtlsEcpGetType grp = .montgomery) (hid : grp.id = .curve25519)
    (hbits : grp.nbits = 254) :
    ((∃ key, mbedtlsEcpReadKey modp id buf = .ok key) ↔ buf.length = 32) ∧
      ∀ g d, mbedtlsEcpReadKey modp id buf = .ok (g, d) → d = maskCurve25519 (ofLE buf) := by
  apply readKey_montgomery hload
  · unfold ecpReadScalar
    rw [htype]
    exact if_pos hid
  · intro e he
    apply MontgomeryScalar.check htype
    rw [hbits]
    exact maskCurve25519_scalar he

theorem readKey_curve448 (hload : mbedtlsEcpGroupLoad modp id = .ok grp)
    (htype : mbedtlsEcpGetType grp = .montgomery) (hid : grp.id = .curve448)
    (hbits : grp.nbits = 447) :
    ((∃ key, mbedtlsEcpReadKey modp id buf = .ok key) ↔ buf.length = 56) ∧
      ∀ g d, mbedtlsEcpReadKey modp id buf = .ok (g, d) → d = maskCurve448 (ofLE buf) := by
  apply readKey_montgomery hload
  · unfold ecpReadScalar
    rw [htype]
    rw [if_neg (by rw [hid]; decide), if_pos hid]
    rfl
  · intro e he
    apply MontgomeryScalar.check htype
    rw [hbits]
    exact maskCurve448_scalar he

theorem readKey_spec (hload : mbedtlsEcpGroupLoad modp id = .ok grp) (hlimbs : HasLimbs w grp buf) :
    ((∃ key, mbedtlsEcpReadKey modp id buf = .ok key) ↔ ReadableKey w grp buf) ∧
      ∀ g d, mbedtlsEcpReadKey modp id buf = .ok (g, d) → ClampedScalar grp buf d := by
  unfold ReadableKey ClampedScalar
  cases loadedGroup_of_load hload with
  | weierstrass htype _ =>
    rw [htype]
    refine ⟨(readKey_weierstrass_iff hload htype).trans ⟨fun h => ⟨hlimbs htype, h⟩, And.right⟩,
      fun g d _ => ⟨fun hid => ?_, fun hid => ?_⟩⟩
    all_goals
      cases id <;> cases hload <;>
        first
        | (cases hid; done)
        | cases (htype : EcpCurveType.montgomery = .shortWeierstrass)
  | curve25519 htype hid hbits =>
    obtain ⟨hiff, hvalue⟩ := @readKey_curve25519 _ _ _ buf hload htype hid hbits
    rw [htype, hiff]
    refine ⟨by simp [hid], fun g d hread => ⟨fun _ i => ?_, fun h => ?_⟩⟩
    · rw [hvalue g d hread, testBit_maskCurve25519]
      split_ifs <;> first | rfl | omega
    · rw [hid] at h
      cases h
  | curve448 htype hid hbits =>
    obtain ⟨hiff, hvalue⟩ := @readKey_curve448 _ _ _ buf hload htype hid hbits
    rw [htype, hiff]
    refine ⟨by simp [hid], fun g d hread => ⟨fun h => ?_, fun _ i => ?_⟩⟩
    · rw [hid] at h
      cases h
    · rw [hvalue g d hread, testBit_maskCurve448]

/-! ## Round trip -/

theorem ecpKeyBytes_of_read {g : EcpGroup} {d : Nat}
    (hload : mbedtlsEcpGroupLoad modp id = .ok grp)
    (hread : mbedtlsEcpReadKey modp id buf = .ok (g, d))
    (htype : mbedtlsEcpGetType grp = .shortWeierstrass) (hlen : buf.length = grp.keyLen) :
    ecpKeyBytes grp d = buf := by
  obtain ⟨_, hd, _⟩ := (mbedtlsEcpReadKey_ok_iff hload).mp hread
  unfold ecpReadScalar at hd
  rw [htype] at hd
  cases hd
  unfold ecpKeyBytes
  rw [htype, ← hlen]
  exact toBE_ofBE buf

theorem ecpGroupLoad_nbits_le {f : Option (Int → Int)} {p b gx gy n : Nat} {a : Option Nat}
    (h : n < 2 ^ 521) : (ecpGroupLoad f id p a b gx gy n).nbits ≤ 521 :=
  Nat.size_le.mpr h

theorem length_ecpKeyBytes_le (hload : mbedtlsEcpGroupLoad modp id = .ok grp) (d : Nat) :
    (ecpKeyBytes grp d).length ≤ mbedtlsMpiMaxLimbs := by
  have hlen : (ecpKeyBytes grp d).length = grp.keyLen := by
    unfold ecpKeyBytes
    split
    · exact length_toLE _ _
    · exact length_toBE _ _
  have hbits : grp.nbits ≤ 521 := by
    cases id <;> cases hload
    case curve25519 => exact Nat.le_of_ble_eq_true rfl
    case curve448 => exact Nat.le_of_ble_eq_true rfl
    all_goals exact ecpGroupLoad_nbits_le (by decide +kernel)
  have hmax : mbedtlsMpiMaxLimbs = 10000 := rfl
  unfold EcpGroup.keyLen at hlen
  omega

structure KeyRoundTrip (w : Nat) (modp : EcpGroupId → Option (Int → Int)) (id : EcpGroupId)
    (grp : EcpGroup) (buf : ByteString) (d : Nat) : Prop where
  valid : mbedtlsEcpCheckPrivkey grp d = .ok ()
  clamped : ClampedScalar grp buf d
  written : ∀ buflen, grp.keyLen ≤ buflen → ∃ out,
    mbedtlsEcpWriteKeyExt grp d buflen = .ok out ∧
      (∀ (isBigEndian : Bool) (X : MbedtlsMpi w),
        mbedtlsEcpReadKeyMpi isBigEndian modp id X out = .ok (grp, d)) ∧
      (mbedtlsEcpGetType grp = .shortWeierstrass → buf.length = grp.keyLen → out = buf)

/-- A string is read exactly where it is a private key whose limbs are within the limit; reading,
writing and reading again gives the same scalar; generated scalars are valid. -/
theorem ecp_private_keys_round_trip (hw : w = 32 ∨ w = 64)
    (hload : mbedtlsEcpGroupLoad modp id = .ok grp) :
    (∀ (isBigEndian : Bool) (X : MbedtlsMpi w) (buf : ByteString), X.n ≤ mbedtlsMpiMaxLimbs →
      ((∃ key, mbedtlsEcpReadKeyMpi isBigEndian modp id X buf = .ok key) ↔ ReadableKey w grp buf) ∧
      ∀ g d, mbedtlsEcpReadKeyMpi isBigEndian modp id X buf = .ok (g, d) →
        g = grp ∧ KeyRoundTrip w modp id grp buf d) ∧
    ∀ (σ ε : Type) (rng : Rng σ ε) (s s' : σ) (d : Nat),
      mbedtlsEcpGenPrivkey rng grp s = .ok (d, s') → mbedtlsEcpCheckPrivkey grp d = .ok () := by
  have hgrp := loadedGroup_of_load hload
  refine ⟨fun isBigEndian X buf hn => ?_,
    fun σ ε rng s s' d hgen => mbedtlsEcpGenPrivkey_check hgrp hgen⟩
  by_cases hlimbs : HasLimbs w grp buf
  · have heq := @mbedtlsEcpReadKeyMpi_eq w modp id grp isBigEndian X buf hw hload hlimbs
    obtain ⟨hiff, hclamped⟩ := readKey_spec hload hlimbs
    have hok : ∀ key, mbedtlsEcpReadKeyMpi isBigEndian modp id X buf = .ok key ↔
        mbedtlsEcpReadKey modp id buf = .ok key := by
      intro key
      rw [heq]
      rcases mbedtlsEcpReadKey modp id buf with e | k <;> simp [Except.mapError]
    simp only [hok]
    refine ⟨hiff, fun g d hread => ?_⟩
    obtain ⟨hg, hscalar, hcheck⟩ := (mbedtlsEcpReadKey_ok_iff hload).mp hread
    refine ⟨hg, hcheck, hclamped g d hread, fun buflen hlen => ⟨ecpKeyBytes grp d,
      mbedtlsEcpWriteKeyExt_eq hgrp hcheck hlen, fun isBigEndian Y => ?_,
      ecpKeyBytes_of_read hload hread⟩⟩
    rw [mbedtlsEcpReadKeyMpi_eq hw hload (hasLimbs_of_length hw (length_ecpKeyBytes_le hload d)),
      mbedtlsEcpReadKey_keyBytes hload hcheck]
    rfl
  · have herror := @mbedtlsEcpReadKeyMpi_noLimbs w modp id grp isBigEndian X buf hload hn hlimbs
    have hnot : ¬ ReadableKey w grp buf := by
      intro hreadable
      apply hlimbs
      intro htype
      unfold ReadableKey at hreadable
      rw [htype] at hreadable
      exact hreadable.1
    rw [herror]
    simp [hnot]

theorem ecp_private_keys_round_trip_curve25519 :
    ReadableKey 64 (ecpUseCurve25519 none) (List.replicate 32 0) ∧
      ∃ key, @mbedtlsEcpReadKeyMpi 64 false (fun _ => none) .curve25519 MbedtlsMpi.init
        (List.replicate 32 0) = .ok key :=
  have hreadable : ReadableKey 64 (ecpUseCurve25519 none) (List.replicate 32 0) :=
    .inl ⟨rfl, List.length_replicate⟩
  ⟨hreadable, (((ecp_private_keys_round_trip (.inr rfl) rfl).1 false MbedtlsMpi.init _
    (by decide)).1).mpr hreadable⟩

/-- A valid scalar behind more zeros than a number has limbs for is not read. -/
theorem ecp_read_key_leading_zeros :
    ¬ ∀ buf : ByteString,
      (∃ key, @mbedtlsEcpReadKeyMpi 64 false (fun _ => none) .secp256r1 MbedtlsMpi.init buf =
        .ok key) ↔ 1 ≤ ofBE buf ∧ ofBE buf < secp256r1N := by
  intro h
  have hvalue : ofBE (List.replicate 80000 0 ++ [1]) = 1 := ofBE_replicate_zero 80000 [1]
  obtain ⟨key, hread⟩ := (h (List.replicate 80000 0 ++ [1])).mpr
    (by rw [hvalue]; exact ⟨le_refl 1, by norm_num [secp256r1N]⟩)
  rw [mbedtlsEcpReadKeyMpi_noLimbs rfl (by decide)] at hread
  · cases hread
  · intro hlimbs
    have hle := hlimbs rfl
    rw [charsToLimbs_le_iff (by decide), List.length_append, List.length_replicate] at hle
    exact absurd hle (by decide)

end TfPsaCrypto.Ecp
