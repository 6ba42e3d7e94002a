import Mathlib.NumberTheory.Bertrand
import TfPsaCrypto.Builtin.RsaPrivateCorrect

/-!
# The RSA operations undo each other

`mbedtls_rsa_private` and `mbedtls_rsa_public` on every input of the length of the modulus.
-/

namespace TfPsaCrypto.RsaPrivate

open Bytes Fallible

variable {key : RsaKey}

/-! ## The public operation -/

theorem mbedtlsRsaPublic_eq (hkey : key.Valid) (hlen : key.len ≤ mbedtlsMpiMaxSize)
    (hfits : expModFits key.E key.N = true) (build : Build) {input : ByteString}
    (hinput : input.length = key.len) :
    mbedtlsRsaPublic build key input =
      if ofBE input < key.N then .ok (toBE key.len (ofBE input ^ key.E % key.N))
      else .error .mpiBadInputData := by
  have hcheck := (rsaCheckContext_valid hkey build false).mpr hlen
  unfold mbedtlsRsaPublic
  rw [if_neg (by rw [hcheck]; nofun), List.take_of_length_le hinput.le]
  by_cases hx : ofBE input < key.N
  · rw [if_pos hx, if_neg (Nat.not_le.mpr hx), if_neg (by rw [hfits]; nofun)]
  · rw [if_neg hx, if_pos (Nat.not_lt.mp hx)]

/-! ## The private operation -/

theorem mbedtlsRsaPrivate_ok_iff (hkey : key.Valid) (build : Build) {c : RsaCall key}
    (hfault : c.fault = none) {s : Blinding} (hs : Consistent key s) (out : ByteString) :
    (mbedtlsRsaPrivate c build s).1 = .ok out ↔
      key.len ≤ mbedtlsMpiMaxSize ∧ ofBE (c.input.take key.len) < key.N ∧ Computes build c s ∧
        out = toBE key.len (ofBE (c.input.take key.len) ^ key.D % key.N) := by
  obtain ⟨hok, herror⟩ := mbedtlsRsaPrivate_triple hkey build hs s rfl
  rcases hrun : mbedtlsRsaPrivate c build s with ⟨e | out', s'⟩
  · obtain ⟨hstop, -⟩ := herror e s' hrun
    constructor
    · rintro ⟨⟩
    · rintro ⟨hlen, hx, hcomputes, -⟩
      exact absurd hcomputes (hstop hfault hlen hx)
  · obtain ⟨-, hlen, hx, hcomputes, rfl⟩ := hok out' s' hrun
    constructor
    · rintro ⟨⟩
      exact ⟨hlen, hx, hcomputes, rfl⟩
    · rintro ⟨-, -, -, rfl⟩
      rfl

/-! ## Both -/

def RsaCall.withInput (c : RsaCall key) (input : ByteString) : RsaCall key :=
  { c with input := input }

theorem Computes.withInput {build : Build} {c : RsaCall key} {s : Blinding} {input : ByteString} :
    Computes build (c.withInput input) s ↔ Computes build c s :=
  ⟨fun h => ⟨h.invertible, h.check, h.power⟩, fun h => ⟨h.invertible, h.check, h.power⟩⟩

def Inverts (build : Build) (c : RsaCall key) (s : Blinding) : Prop :=
  ∀ input : ByteString, input.length = key.len →
    (ofBE input < key.N →
      (mbedtlsRsaPrivate (c.withInput input) build s).1 =
        .ok (toBE key.len (ofBE input ^ key.D % key.N)) ∧
      mbedtlsRsaPublic build key (toBE key.len (ofBE input ^ key.D % key.N)) = .ok input ∧
      mbedtlsRsaPublic build key input = .ok (toBE key.len (ofBE input ^ key.E % key.N)) ∧
      (mbedtlsRsaPrivate (c.withInput (toBE key.len (ofBE input ^ key.E % key.N))) build s).1 =
        .ok input) ∧
    ((∃ out, (mbedtlsRsaPrivate (c.withInput input) build s).1 = .ok out) ↔ ofBE input < key.N) ∧
    ((∃ out, mbedtlsRsaPublic build key input = .ok out) ↔ ofBE input < key.N)

theorem toBE_back {a b : Nat} (k : Rsa.Key key.P key.Q key.N a b) {input : ByteString}
    (hinput : input.length = key.len) (hx : ofBE input < key.N) :
    toBE key.len (ofBE (toBE key.len (ofBE input ^ b % key.N)) ^ a % key.N) = input := by
  have hlt : ofBE input ^ b % key.N < 256 ^ key.len := (Nat.mod_lt _ k.n_pos).trans key.lt_len
  have hback : (ofBE input ^ b % key.N) ^ a % key.N = ofBE input := by
    rw [k.pow_pow_modEq, Nat.mod_eq_of_lt hx]
  rw [ofBE_toBE, Nat.mod_eq_of_lt hlt, hback, ← hinput, toBE_ofBE]

/-- Without failures, the operations undo each other iff the modulus is not too long, the exponents
fit into an exponentiation, and the number drawn for a new blinding pair is not rejected. -/
theorem rsa_private_public_inverse (hkey : key.Valid) (build : Build) {c : RsaCall key}
    (hfault : c.fault = none) {s : Blinding} (hs : Consistent key s) :
    Inverts build c s ↔ key.len ≤ mbedtlsMpiMaxSize ∧ Computes build c s := by
  have hprivate := fun input out =>
    mbedtlsRsaPrivate_ok_iff hkey build (c := c.withInput input) hfault hs out
  constructor
  · intro h
    have hzero : ofBE (toBE key.len 0) < key.N := by
      rw [ofBE_toBE, Nat.zero_mod]
      exact hkey.exponents.n_pos
    obtain ⟨hok, -⟩ := (h (toBE key.len 0) (length_toBE _ _)).1 hzero
    obtain ⟨hlen, -, hcomputes, -⟩ := (hprivate _ _).mp hok
    exact ⟨hlen, Computes.withInput.mp hcomputes⟩
  · rintro ⟨hlen, hcomputes⟩ input hinput
    have htake : input.take key.len = input := List.take_of_length_le hinput.le
    have hpublic := fun {x : ByteString} (hx : x.length = key.len) =>
      mbedtlsRsaPublic_eq hkey hlen hcomputes.check build hx
    refine ⟨?_, ?_, ?_⟩
    · intro hx
      have hlt : ∀ a, ofBE (toBE key.len (ofBE input ^ a % key.N)) < key.N := by
        intro a
        have hmod := Nat.mod_lt (ofBE input ^ a) hkey.exponents.n_pos
        rw [ofBE_toBE, Nat.mod_eq_of_lt (hmod.trans key.lt_len)]
        exact hmod
      refine ⟨?_, ?_, ?_, ?_⟩
      · apply (hprivate _ _).mpr
        refine ⟨hlen, ?_, Computes.withInput.mpr hcomputes, ?_⟩
        · show ofBE (input.take key.len) < key.N
          rwa [htake]
        · show _ = toBE key.len (ofBE (input.take key.len) ^ key.D % key.N)
          rw [htake]
      · rw [hpublic (length_toBE _ _), if_pos (hlt _), toBE_back hkey.exponents hinput hx]
      · rw [hpublic hinput, if_pos hx]
      · have htake' : (toBE key.len (ofBE input ^ key.E % key.N)).take key.len = _ :=
          List.take_of_length_le (length_toBE _ _).le
        apply (hprivate _ _).mpr
        refine ⟨hlen, ?_, Computes.withInput.mpr hcomputes, ?_⟩
        · show ofBE ((toBE key.len (ofBE input ^ key.E % key.N)).take key.len) < key.N
          rw [htake']
          exact hlt _
        · show input =
            toBE key.len (ofBE ((toBE key.len (ofBE input ^ key.E % key.N)).take key.len) ^
              key.D % key.N)
          rw [htake', toBE_back hkey.exponents.symm hinput hx]
    · constructor
      · rintro ⟨out, hout⟩
        obtain ⟨-, hx, -⟩ := (hprivate _ _).mp hout
        have hx' : ofBE (input.take key.len) < key.N := hx
        rwa [htake] at hx'
      · intro hx
        refine ⟨_, (hprivate _ _).mpr ⟨hlen, ?_, Computes.withInput.mpr hcomputes, rfl⟩⟩
        show ofBE (input.take key.len) < key.N
        rwa [htake]
    · rw [hpublic hinput]
      constructor
      · rintro ⟨out, hout⟩
        by_contra hx
        rw [if_neg hx] at hout
        cases hout
      · intro hx
        rw [if_pos hx]
        exact ⟨_, rfl⟩

/-- The small key, in both builds. -/
theorem rsa_private_public_inverse_small :
    Inverts .crt (smallCall none) .init ∧ Inverts .noCrt (smallCall none) .init := by
  constructor
  · apply (rsa_private_public_inverse smallKey_valid .crt rfl (.inl rfl)).mpr
    exact ⟨by decide, nofun, by decide +kernel, by decide +kernel, by decide +kernel⟩
  · apply (rsa_private_public_inverse smallKey_valid .noCrt rfl (.inl rfl)).mpr
    refine ⟨by decide, fun _ _ => by decide, by decide +kernel, ?_⟩
    show expModFits 287 55 = true
    decide +kernel

/-! ## Moduli of 8192 bits -/

theorem pred_mul_pred_modEq {m : Nat} (hm : 2 ≤ m) : (m - 1) * (m - 1) ≡ 1 [MOD m] := by
  obtain ⟨i, rfl⟩ : ∃ i, m = i + 2 := ⟨m - 2, by omega⟩
  have hsquare : (i + 2 - 1) * (i + 2 - 1) = 1 + (i + 2) * i := by
    rw [Nat.add_sub_assoc (by omega)]
    ring
  rw [hsquare]
  exact Nat.add_mul_mod_self_left _ _ _

theorem exists_key (k : Nat) (hk : 1 ≤ k) :
    ∃ key : RsaKey, key.Valid ∧ key.E < key.N ∧ key.D < key.N ∧ key.limbs = k + 1 ∧
      key.N ≤ 2 ^ (2 * k + 3) ∧ 2 ^ (k + 1) ≤ key.P - 1 ∧ 2 ^ k ≤ key.Q - 1 := by
  obtain ⟨p, hp, hplow, hphigh⟩ :=
    Nat.exists_prime_lt_and_le_two_mul (2 ^ (k + 1)) (Nat.two_pow_pos _).ne'
  obtain ⟨q, hq, hqlow, hqhigh⟩ :=
    Nat.exists_prime_lt_and_le_two_mul (2 ^ k) (Nat.two_pow_pos _).ne'
  have htwo : 2 ≤ 2 ^ k := Nat.le_self_pow (by omega) 2
  have hne : p ≠ q := by omega
  have hpq : p.Coprime q := (Nat.coprime_primes hp hq).mpr hne
  obtain ⟨qp, -, hqp⟩ := Nat.exists_mul_mod_eq_one_of_coprime hpq.symm hp.one_lt
  have hlcm : Nat.lcm (p - 1) (q - 1) ≤ (p - 1) * (q - 1) :=
    Nat.le_of_dvd (Nat.mul_pos (by omega) (by omega)) (Nat.lcm_dvd_mul _ _)
  have hlarge : p - 1 ≤ Nat.lcm (p - 1) (q - 1) :=
    Nat.le_of_dvd (Nat.lcm_pos (by omega) (by omega)) (Nat.dvd_lcm_left _ _)
  have hsmall : (p - 1) * (q - 1) ≤ p * q := Nat.mul_le_mul (by omega) (by omega)
  generalize hm : Nat.lcm (p - 1) (q - 1) = m at hlcm hlarge
  have hproduct : p * q ≤ 2 ^ (2 * k + 3) := by
    calc p * q ≤ 2 * 2 ^ (k + 1) * (2 * 2 ^ k) := Nat.mul_le_mul hphigh hqhigh
      _ = 2 ^ (2 * k + 3) := by ring
  refine ⟨⟨p * q, m - 1, m - 1, p, q, (m - 1) % (p - 1), (m - 1) % (q - 1), qp, k + 1⟩,
    ⟨⟨hp, hq, ?_, ?_, hne, rfl, ?_⟩, rfl, rfl, ?_, ?_⟩, ?_, ?_, rfl, hproduct, ?_, ?_⟩
  · exact Nat.odd_iff.mp (hp.odd_of_ne_two (by omega))
  · exact Nat.odd_iff.mp (hq.odd_of_ne_two (by omega))
  · rw [hm]
    exact pred_mul_pred_modEq (by omega)
  · show q * qp ≡ 1 [MOD p]
    rw [Nat.ModEq, hqp, Nat.mod_eq_of_lt hp.one_lt]
  · calc p * q ≤ 2 ^ (2 * k + 3) := hproduct
      _ < 2 ^ (biL * (k + 1)) := Nat.pow_lt_pow_right (by omega) (by unfold biL; omega)
      _ = (2 ^ biL) ^ (k + 1) := Nat.pow_mul _ _ _
  · show m - 1 < p * q
    omega
  · show m - 1 < p * q
    omega
  · show 2 ^ (k + 1) ≤ p - 1
    omega
  · show 2 ^ k ≤ q - 1
    omega

/-- A key of at most 8192 bits, accepted for private operations, whose private operation without the
Chinese remainder theorem fails. -/
theorem rsa_private_not_inverse :
    ∃ (key : RsaKey) (c : RsaCall key), key.Valid ∧ key.E < key.N ∧ key.D < key.N ∧
      rsaCheckContext .noCrt key true = true ∧ c.fault = none ∧
      ofBE (c.input.take key.len) < key.N ∧ Invertible .noCrt c .init ∧
      ∀ out, (mbedtlsRsaPrivate c .noCrt .init).1 ≠ .ok out := by
  obtain ⟨key, hkey, hE, hD, -, hN, hP, hQ⟩ := exists_key 4094 (by omega)
  have hsize : key.N.size ≤ 8192 := by
    rw [Nat.size_le]
    exact hN.trans_lt (Nat.pow_lt_pow_right (by omega) (by omega))
  have hlen : key.len ≤ mbedtlsMpiMaxSize := by
    unfold RsaKey.len mbedtlsMpiMaxSize
    omega
  have hp := hkey.exponents.three_le_p
  have hq := hkey.exponents.three_le_q
  have hproduct := hkey.exponents.product
  have hone : 1 < key.N := by
    rw [hproduct]
    nlinarith
  refine ⟨key, ⟨toBE key.len 0, none, 0, false, ⟨1, 1, 1, 2 ^ 223, 0, ⟨le_rfl, hone⟩,
    ⟨le_rfl, by omega⟩, ⟨le_rfl, by omega⟩, ?_, by norm_num [rsaExponentBlinding]⟩⟩, hkey, hE, hD,
    (rsaCheckContext_valid hkey _ _).mpr hlen, rfl, ?_, fun _ _ => Nat.gcd_one_left _, ?_⟩
  · norm_num [rsaExponentBlinding]
  · rw [List.take_of_length_le (length_toBE _ _).le, ofBE_toBE, Nat.zero_mod]
    omega
  · intro out hout
    obtain ⟨-, -, hcomputes, -⟩ :=
      (mbedtlsRsaPrivate_ok_iff hkey .noCrt (by rfl) (.inl rfl) out).mp hout
    have hpower : expModFits ((key.P - 1) * (key.Q - 1) * 2 ^ 223 + key.D) key.N = true :=
      hcomputes.power
    unfold expModFits at hpower
    rw [Bool.and_eq_true, decide_eq_true_iff, decide_eq_true_iff] at hpower
    have hlow : 2 ^ 8192 ≤ (key.P - 1) * (key.Q - 1) * 2 ^ 223 + key.D := by
      calc 2 ^ 8192 ≤ 2 ^ (4094 + 1) * 2 ^ 4094 * 2 ^ 223 := by
            rw [← Nat.pow_add, ← Nat.pow_add]
            exact Nat.pow_le_pow_right (by omega) (by omega)
        _ ≤ (key.P - 1) * (key.Q - 1) * 2 ^ 223 := Nat.mul_le_mul_right _ (Nat.mul_le_mul hP hQ)
        _ ≤ _ := Nat.le_add_right _ _
    exact absurd (Nat.size_le.mp hpower.1) (Nat.not_lt.mpr hlow)

end TfPsaCrypto.RsaPrivate
