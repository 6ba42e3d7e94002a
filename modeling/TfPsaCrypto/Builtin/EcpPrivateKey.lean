import Mathlib.Data.Nat.Bitwise
import Mathlib.Tactic.NormNum
import TfPsaCrypto.Builtin.EcpCurves

/-!
# Private keys of elliptic curves

How `ecp.c` generates, checks, reads and writes a private key.
-/

namespace TfPsaCrypto.Ecp

open Bytes

/-! ## Random numbers -/

/-- A source of random bytes with the state `σ`: it fails, or returns as many bytes as it is asked
for. -/
structure Rng (σ ε : Type) where
  draw : σ → Nat → Except ε (ByteString × σ)
  length_draw : ∀ {s s' n bytes}, draw s n = .ok (bytes, s') → bytes.length = n

inductive GenError (ε : Type) where
  | rng (e : ε)
  | ecp (e : EcpError)
  | randomFailed
  | notAcceptable
  deriving DecidableEq, Repr

variable {σ ε : Type}

/-- The loop of `mbedtls_mpi_core_random`; the last candidate is not looked at. -/
def mpiCoreRandomLoop (rng : Rng σ ε) (min N nBytes nBits : Nat) :
    Nat → σ → Except (GenError ε) (Nat × σ)
  | 0, _ => .error .notAcceptable
  | count + 1, s =>
    match rng.draw s nBytes with
    | .error e => .error (.rng e)
    | .ok (bytes, s) =>
      let X := ofBE bytes >>> (8 * nBytes - nBits)
      if count = 0 then .error .notAcceptable
      else if min ≤ X ∧ X < N then .ok (X, s)
      else mpiCoreRandomLoop rng min N nBytes nBits count s

def mbedtlsMpiRandom (rng : Rng σ ε) (min N : Nat) (s : σ) : Except (GenError ε) (Nat × σ) :=
  if N ≤ min then .error (.ecp .mpiBadInputData)
  else
    let nBits := N.size
    let nBytes := (nBits + 7) / 8
    mpiCoreRandomLoop rng min N nBytes nBits (if nBytes > 4 then 30 else 250) s

def mbedtlsMpiSetBit (X pos : Nat) (val : Bool) : Nat := X.ldiff (2 ^ pos) ||| (val.toNat <<< pos)

/-! ## Generation -/

/-- The bits that `mbedtls_ecp_gen_privkey_mx` sets and clears. -/
def genPrivkeyMxBits (highBit d : Nat) : Nat :=
  let d := mbedtlsMpiSetBit d highBit true
  let d := mbedtlsMpiSetBit d 0 false
  let d := mbedtlsMpiSetBit d 1 false
  if highBit = 254 then mbedtlsMpiSetBit d 2 false else d

def mbedtlsEcpGenPrivkeyMx (rng : Rng σ ε) (highBit : Nat) (s : σ) :
    Except (GenError ε) (Nat × σ) :=
  let nRandomBytes := highBit / 8 + 1
  match rng.draw s nRandomBytes with
  | .error e => .error (.rng e)
  | .ok (bytes, s) =>
    .ok (genPrivkeyMxBits highBit (ofBE bytes >>> (8 * nRandomBytes - highBit - 1)), s)

def mbedtlsEcpGenPrivkeySw (rng : Rng σ ε) (N : Nat) (s : σ) : Except (GenError ε) (Nat × σ) :=
  match mbedtlsMpiRandom rng 1 N s with
  | .error .notAcceptable => .error .randomFailed
  | r => r

def mbedtlsEcpGenPrivkey (rng : Rng σ ε) (grp : EcpGroup) (s : σ) :
    Except (GenError ε) (Nat × σ) :=
  match mbedtlsEcpGetType grp with
  | .montgomery => mbedtlsEcpGenPrivkeyMx rng grp.nbits s
  | .shortWeierstrass => mbedtlsEcpGenPrivkeySw rng grp.N s
  | .none => .error (.ecp .badInputData)

/-! ## Reading and writing -/

def mbedtlsEcpCheckPrivkey (grp : EcpGroup) (d : Nat) : Except EcpError Unit :=
  match mbedtlsEcpGetType grp with
  | .montgomery =>
    if d.testBit 0 = true ∨ d.testBit 1 = true ∨ d.size ≠ grp.nbits + 1 then .error .invalidKey
    else if grp.nbits = 254 ∧ d.testBit 2 = true then .error .invalidKey
    else .ok ()
  | .shortWeierstrass => if d < 1 ∨ d ≥ grp.N then .error .invalidKey else .ok ()
  | .none => .error .badInputData

def ecpCurve25519KeySize : Nat := 32

def ecpCurve448KeySize : Nat := 56

def maskCurve25519 (d : Nat) : Nat :=
  let d := mbedtlsMpiSetBit d 0 false
  let d := mbedtlsMpiSetBit d 1 false
  let d := mbedtlsMpiSetBit d 2 false
  let d := mbedtlsMpiSetBit d (ecpCurve25519KeySize * 8 - 1) false
  mbedtlsMpiSetBit d (ecpCurve25519KeySize * 8 - 2) true

def maskCurve448 (d : Nat) : Nat :=
  let d := mbedtlsMpiSetBit d 0 false
  let d := mbedtlsMpiSetBit d 1 false
  mbedtlsMpiSetBit d (ecpCurve448KeySize * 8 - 1) true

def ecpReadScalar (grp : EcpGroup) (buf : ByteString) : Except EcpError Nat :=
  match mbedtlsEcpGetType grp with
  | .montgomery =>
    if grp.id = .curve25519 then
      if buf.length ≠ ecpCurve25519KeySize then .error .invalidKey
      else .ok (maskCurve25519 (ofLE buf))
    else if grp.id = .curve448 then
      if buf.length ≠ ecpCurve448KeySize then .error .invalidKey
      else .ok (maskCurve448 (ofLE buf))
    else .error .featureUnavailable
  | .shortWeierstrass => .ok (ofBE buf)
  | .none => .error .featureUnavailable

def mbedtlsEcpReadKey (modp : EcpGroupId → Option (Int → Int)) (grpId : EcpGroupId)
    (buf : ByteString) : Except EcpError (EcpGroup × Nat) :=
  match mbedtlsEcpGroupLoad modp grpId with
  | .error e => .error e
  | .ok grp =>
    match ecpReadScalar grp buf with
    | .error e => .error e
    | .ok d =>
      match mbedtlsEcpCheckPrivkey grp d with
      | .error e => .error e
      | .ok () => .ok (grp, d)

def EcpGroup.keyLen (grp : EcpGroup) : Nat := (grp.nbits + 7) / 8

/-- Where the private key is set. -/
def mbedtlsEcpWriteKeyExt (grp : EcpGroup) (d buflen : Nat) : Except EcpError ByteString :=
  if grp.keyLen > buflen then .error .bufferTooSmall
  else
    match mbedtlsEcpGetType grp with
    | .montgomery =>
      if d ≥ 256 ^ grp.keyLen then .error .mpiBufferTooSmall else .ok (toLE grp.keyLen d)
    | .shortWeierstrass =>
      if d ≥ 256 ^ grp.keyLen then .error .mpiBufferTooSmall else .ok (toBE grp.keyLen d)
    | .none => .error .badInputData

/-! ## Bits -/

theorem testBit_setBit (X pos i : Nat) (val : Bool) :
    (mbedtlsMpiSetBit X pos val).testBit i = if i = pos then val else X.testBit i := by
  unfold mbedtlsMpiSetBit
  rw [Nat.testBit_or, Nat.testBit_ldiff, Nat.testBit_two_pow, Nat.testBit_shiftLeft]
  by_cases hi : i = pos
  · subst hi
    cases val <;> simp
  have hpos : ¬ pos = i := fun h => hi h.symm
  have hval : (decide (i ≥ pos) && val.toNat.testBit (i - pos)) = false := by
    by_cases hle : pos ≤ i
    · have hne : i - pos ≠ 0 := by omega
      have hlt : val.toNat < 2 ^ (i - pos) :=
        lt_of_le_of_lt (Bool.toNat_le val) (Nat.one_lt_two_pow hne)
      rw [Nat.testBit_lt_two_pow hlt, Bool.and_false]
    · simp [hle]
  rw [hval, if_neg hi]
  simp [hpos]

theorem testBit_reversed_low {n d i : Nat} (hi : i < 8) :
    (ofLE (toBE (n + 1) d)).testBit i = d.testBit (8 * n + i) := by
  have hbytes : ofLE (toBE (n + 1) d) % 2 ^ 8 = d / 2 ^ (8 * n) % 2 ^ 8 := by
    rw [show (2 : Nat) ^ 8 = 256 from rfl, Nat.add_comm n 1, toBE_add, ofLE_append, length_toBE,
      pow_one, Nat.add_mul_mod_self_left]
    have hone : ofLE (toBE 1 (d / 256 ^ n)) = d / 256 ^ n % 256 := by
      rw [show toBE 1 (d / 256 ^ n) = toLE 1 (d / 256 ^ n) from rfl, ofLE_toLE, pow_one]
    rw [hone, show (256 : Nat) ^ n = 2 ^ (8 * n) by rw [pow_mul]; rfl]
    exact Nat.mod_mod _ _
  have hbit := congrArg (fun v => v.testBit i) hbytes
  simp only [Nat.testBit_mod_two_pow, hi, decide_true, Bool.true_and,
    Nat.testBit_div_two_pow] at hbit
  rw [hbit, Nat.add_comm]

theorem testBit_reversed_high {n d i : Nat} (hi : i < 8) :
    (ofLE (toBE (n + 1) d)).testBit (8 * n + i) = d.testBit i := by
  have hbytes : ofLE (toBE (n + 1) d) / 2 ^ (8 * n) = d % 2 ^ 8 := by
    have hlt := ofLE_lt (toBE n (d / 256 ^ 1))
    rw [length_toBE] at hlt
    rw [toBE_add n 1, ofLE_append, length_toBE, ← show (256 : Nat) ^ n = 2 ^ (8 * n) by
      rw [pow_mul]; rfl, Nat.add_mul_div_left _ _ (by positivity), Nat.div_eq_of_lt hlt,
      Nat.zero_add]
    rw [show toBE 1 d = toLE 1 d from rfl, ofLE_toLE, pow_one]
    rfl
  have hbit := congrArg (fun v => v.testBit i) hbytes
  simp only [Nat.testBit_mod_two_pow, hi, decide_true, Bool.true_and,
    Nat.testBit_div_two_pow] at hbit
  rw [← hbit, Nat.add_comm (8 * n)]

theorem ofLE_toBE_eq_iff {n d : Nat} (hd : d < 256 ^ n) :
    ofLE (toBE n d) = d ↔ (toBE n d).reverse = toBE n d := by
  have hreverse : (toBE n d).reverse = toLE n d := List.reverse_reverse _
  rw [hreverse]
  constructor
  · intro h
    have hlist := toLE_ofLE (toBE n d)
    rw [length_toBE, h] at hlist
    exact hlist
  · intro h
    rw [← h, ofLE_toLE_of_lt hd]

/-! ## Scalars -/

/-- A scalar of a Montgomery curve with the most significant bit `nbits`. -/
structure MontgomeryScalar (nbits d : Nat) : Prop where
  lt : d < 2 ^ (nbits + 1)
  top : d.testBit nbits = true
  zero : d.testBit 0 = false
  one : d.testBit 1 = false
  two : nbits = 254 → d.testBit 2 = false

theorem genPrivkeyMxBits_scalar {highBit d : Nat} (hbit : 2 < highBit)
    (hd : d < 2 ^ (highBit + 1)) : MontgomeryScalar highBit (genPrivkeyMxBits highBit d) := by
  have hbits : ∀ i, (genPrivkeyMxBits highBit d).testBit i =
      if highBit = 254 ∧ i = 2 then false
      else if i = 1 then false else if i = 0 then false
      else if i = highBit then true else d.testBit i := by
    intro i
    unfold genPrivkeyMxBits
    by_cases h254 : highBit = 254
    · rw [if_pos h254]
      simp only [testBit_setBit, h254, true_and]
    · rw [if_neg h254]
      simp only [testBit_setBit, h254, false_and, if_false]
  constructor
  · apply Nat.lt_pow_two_of_testBit
    intro i hi
    have hhigh : d.testBit i = false :=
      Nat.testBit_lt_two_pow (lt_of_lt_of_le hd (Nat.pow_le_pow_right (by decide) hi))
    rw [hbits]
    split
    · rfl
    · rw [if_neg (by omega), if_neg (by omega), if_neg (by omega), hhigh]
  · rw [hbits, if_neg (by omega), if_neg (by omega), if_neg (by omega), if_pos rfl]
  · rw [hbits, if_neg (by omega), if_neg (by omega), if_pos rfl]
  · rw [hbits, if_neg (by omega), if_pos rfl]
  · intro h254
    rw [hbits, if_pos ⟨h254, rfl⟩]

theorem MontgomeryScalar.size {nbits d : Nat} (h : MontgomeryScalar nbits d) :
    d.size = nbits + 1 := by
  apply le_antisymm (Nat.size_le.mpr h.lt)
  rw [Nat.succ_le_iff, Nat.lt_size]
  exact Nat.ge_two_pow_of_testBit h.top

theorem testBit_maskCurve25519 (d i : Nat) :
    (maskCurve25519 d).testBit i =
      if i = 254 then true else if i = 255 then false else if i < 3 then false
      else d.testBit i := by
  unfold maskCurve25519 ecpCurve25519KeySize
  simp only [testBit_setBit]
  split_ifs <;> first | rfl | omega

theorem testBit_maskCurve448 (d i : Nat) :
    (maskCurve448 d).testBit i =
      if i = 447 then true else if i < 2 then false else d.testBit i := by
  unfold maskCurve448 ecpCurve448KeySize
  simp only [testBit_setBit]
  split_ifs <;> first | rfl | omega

theorem maskCurve25519_scalar {e : Nat} (he : e < 256 ^ 32) :
    MontgomeryScalar 254 (maskCurve25519 e) := by
  constructor
  · apply Nat.lt_pow_two_of_testBit
    intro i hi
    rw [testBit_maskCurve25519, if_neg (by omega)]
    split
    · rfl
    · rw [if_neg (by omega)]
      have hle : 2 ^ (8 * 32) ≤ 2 ^ i := Nat.pow_le_pow_right (by decide) (by omega)
      rw [pow_mul] at hle
      exact Nat.testBit_lt_two_pow (lt_of_lt_of_le he hle)
  · rw [testBit_maskCurve25519, if_pos rfl]
  · rw [testBit_maskCurve25519]
    rfl
  · rw [testBit_maskCurve25519]
    rfl
  · intro _
    rw [testBit_maskCurve25519]
    rfl

theorem maskCurve25519_of_scalar {d : Nat} (h : MontgomeryScalar 254 d) :
    maskCurve25519 d = d := by
  apply Nat.eq_of_testBit_eq
  intro i
  rw [testBit_maskCurve25519]
  split
  · next hi => rw [hi, h.top]
  split
  · next hi => rw [hi, Nat.testBit_lt_two_pow h.lt]
  split
  · next hi =>
    have hcases : i = 0 ∨ i = 1 ∨ i = 2 := by omega
    rcases hcases with rfl | rfl | rfl
    · exact h.zero.symm
    · exact h.one.symm
    · exact (h.two rfl).symm
  · rfl

theorem maskCurve448_of_scalar {d : Nat} (h : MontgomeryScalar 447 d) : maskCurve448 d = d := by
  apply Nat.eq_of_testBit_eq
  intro i
  rw [testBit_maskCurve448]
  split
  · next hi => rw [hi, h.top]
  split
  · next hi =>
    have hcases : i = 0 ∨ i = 1 := by omega
    rcases hcases with rfl | rfl
    · exact h.zero.symm
    · exact h.one.symm
  · rfl

theorem reversed_eq_of_mask {n d m : Nat} (hm : m = d)
    (hmask : ∀ i, 8 ≤ i → i < 8 * n → m.testBit i = (ofLE (toBE (n + 1) d)).testBit i)
    (hbyte : ∀ i, i < 8 → m.testBit i = (ofLE (toBE (n + 1) d)).testBit i ∨
      m.testBit (8 * n + i) = (ofLE (toBE (n + 1) d)).testBit (8 * n + i))
    (hd : d < 256 ^ (n + 1)) : ofLE (toBE (n + 1) d) = d := by
  have hlow : ∀ i, i < 8 → (ofLE (toBE (n + 1) d)).testBit i = d.testBit i ∧
      (ofLE (toBE (n + 1) d)).testBit (8 * n + i) = d.testBit (8 * n + i) := by
    intro i hi
    have hl := @testBit_reversed_low n d i hi
    have hh := @testBit_reversed_high n d i hi
    rcases hbyte i hi with h | h
    · rw [hm] at h
      exact ⟨h.symm, by rw [hh, h, hl]⟩
    · rw [hm] at h
      exact ⟨by rw [hl, h, hh], h.symm⟩
  apply Nat.eq_of_testBit_eq
  intro i
  by_cases h8 : i < 8
  · exact (hlow i h8).1
  by_cases hmid : i < 8 * n
  · rw [← hmask i (by omega) hmid, hm]
  by_cases htop : i < 8 * n + 8
  · have hi : i = 8 * n + (i - 8 * n) := by omega
    rw [hi]
    exact (hlow (i - 8 * n) (by omega)).2
  have hpow : (256 : Nat) ^ (n + 1) = 2 ^ (8 * n + 8) := by
    rw [show 8 * n + 8 = 8 * (n + 1) by ring, pow_mul]
    rfl
  have he := ofLE_lt (toBE (n + 1) d)
  rw [length_toBE] at he
  rw [hpow] at he hd
  have hle : 2 ^ (8 * n + 8) ≤ 2 ^ i := Nat.pow_le_pow_right (by decide) (by omega)
  rw [Nat.testBit_lt_two_pow (lt_of_lt_of_le he hle),
    Nat.testBit_lt_two_pow (lt_of_lt_of_le hd hle)]

theorem MontgomeryScalar.lt_bytes {n d : Nat} (h : MontgomeryScalar (8 * n - 1) d)
    (hn : 0 < n) : d < 256 ^ n := by
  have hlt := h.lt
  rw [show 8 * n - 1 + 1 = 8 * n by omega, pow_mul] at hlt
  exact hlt

theorem maskCurve25519_reversed_iff {d : Nat} (h : MontgomeryScalar 254 d) :
    maskCurve25519 (ofLE (toBE 32 d)) = d ↔ (toBE 32 d).reverse = toBE 32 d := by
  have hd : d < 256 ^ 32 := lt_of_lt_of_le h.lt (by norm_num)
  rw [← ofLE_toBE_eq_iff hd]
  constructor
  · intro hm
    refine @reversed_eq_of_mask 31 d _ hm ?_ ?_ hd
    · intro i h8 hi
      rw [testBit_maskCurve25519, if_neg (by omega), if_neg (by omega), if_neg (by omega)]
    intro i hi
    rw [testBit_maskCurve25519, testBit_maskCurve25519]
    by_cases hlow : i < 3
    · right
      rw [if_neg (by omega), if_neg (by omega), if_neg (by omega)]
    · left
      rw [if_neg (by omega), if_neg (by omega), if_neg hlow]
  · intro he
    rw [he, maskCurve25519_of_scalar h]

theorem maskCurve448_reversed_iff {d : Nat} (h : MontgomeryScalar 447 d) :
    maskCurve448 (ofLE (toBE 56 d)) = d ↔ (toBE 56 d).reverse = toBE 56 d := by
  have hd : d < 256 ^ 56 := h.lt_bytes (n := 56) (by decide)
  rw [← ofLE_toBE_eq_iff hd]
  constructor
  · intro hm
    refine @reversed_eq_of_mask 55 d _ hm ?_ ?_ hd
    · intro i h8 hi
      rw [testBit_maskCurve448, if_neg (by omega), if_neg (by omega)]
    intro i hi
    rw [testBit_maskCurve448, testBit_maskCurve448]
    by_cases hlow : i < 2
    · right
      rw [if_neg (by omega), if_neg (by omega)]
    · left
      rw [if_neg (by omega), if_neg hlow]
  · intro he
    rw [he, maskCurve448_of_scalar h]

/-! ## Loaded groups -/

/-- What the groups of `ecp_curves.c` are for a private key. -/
inductive LoadedGroup (grp : EcpGroup) : Prop
  | weierstrass (htype : mbedtlsEcpGetType grp = .shortWeierstrass) (hbits : grp.nbits = grp.N.size)
  | curve25519 (htype : mbedtlsEcpGetType grp = .montgomery) (hid : grp.id = .curve25519)
      (hbits : grp.nbits = 254)
  | curve448 (htype : mbedtlsEcpGetType grp = .montgomery) (hid : grp.id = .curve448)
      (hbits : grp.nbits = 447)

variable {modp : EcpGroupId → Option (Int → Int)} {id : EcpGroupId} {grp : EcpGroup}

theorem loadedGroup_ecpGroupLoad (modp : Option (Int → Int)) (id : EcpGroupId) (p : Nat)
    (a : Option Nat) (b gx gy n : Nat) : LoadedGroup (ecpGroupLoad modp id p a b gx gy n) :=
  .weierstrass rfl rfl

theorem loadedGroup_of_load (h : mbedtlsEcpGroupLoad modp id = .ok grp) : LoadedGroup grp := by
  cases id <;> cases h
  case curve25519 => exact .curve25519 rfl rfl rfl
  case curve448 => exact .curve448 rfl rfl rfl
  all_goals exact loadedGroup_ecpGroupLoad _ _ _ _ _ _ _ _

theorem MontgomeryScalar.check {d : Nat} (htype : mbedtlsEcpGetType grp = .montgomery)
    (h : MontgomeryScalar grp.nbits d) : mbedtlsEcpCheckPrivkey grp d = .ok () := by
  unfold mbedtlsEcpCheckPrivkey
  rw [htype]
  rw [if_neg (by simp [h.zero, h.one, h.size])]
  rw [if_neg]
  rintro ⟨hbits, htwo⟩
  rw [h.two hbits] at htwo
  cases htwo

theorem montgomeryScalar_of_check {d : Nat} (htype : mbedtlsEcpGetType grp = .montgomery)
    (h : mbedtlsEcpCheckPrivkey grp d = .ok ()) : MontgomeryScalar grp.nbits d := by
  unfold mbedtlsEcpCheckPrivkey at h
  rw [htype] at h
  dsimp only at h
  split at h
  · cases h
  next hlow =>
  split at h
  · cases h
  next htwo =>
  have hsize : d.size = grp.nbits + 1 := by
    by_contra hne
    exact hlow (.inr (.inr hne))
  have hlt : d < 2 ^ (grp.nbits + 1) := Nat.size_le.mp hsize.le
  have hbit : ∀ i, ¬ d.testBit i = true → d.testBit i = false := fun _ =>
    Bool.eq_false_of_not_eq_true
  refine ⟨hlt, ?_, hbit 0 fun h => hlow (.inl h), hbit 1 fun h => hlow (.inr (.inl h)),
    fun h254 => hbit 2 fun h => htwo ⟨h254, h⟩⟩
  have hle : 2 ^ grp.nbits ≤ d := Nat.lt_size.mp (by omega)
  rw [Nat.testBit_eq_decide_div_mod_eq, decide_eq_true_iff]
  have hdiv : d / 2 ^ grp.nbits = 1 := by
    exact Nat.div_eq_of_lt_le (by omega) (by omega)
  rw [hdiv]

theorem lt_keyLen_of_check {d : Nat} (hgrp : LoadedGroup grp)
    (h : mbedtlsEcpCheckPrivkey grp d = .ok ()) : d < 256 ^ grp.keyLen := by
  have hmontgomery : mbedtlsEcpGetType grp = .montgomery → grp.nbits = 254 ∨ grp.nbits = 447 →
      d < 256 ^ grp.keyLen := by
    intro htype hbits
    have hscalar := montgomeryScalar_of_check htype h
    have hlt := hscalar.lt
    have hlen : grp.nbits + 1 ≤ 8 * grp.keyLen := by
      unfold EcpGroup.keyLen
      omega
    rw [show (256 : Nat) = 2 ^ 8 from rfl, ← pow_mul]
    exact lt_of_lt_of_le hlt (Nat.pow_le_pow_right (by decide) hlen)
  cases hgrp with
  | weierstrass htype hbits =>
    unfold mbedtlsEcpCheckPrivkey at h
    rw [htype] at h
    dsimp only at h
    split at h
    · cases h
    next hrange =>
    have hN : grp.N < 2 ^ grp.nbits := by
      rw [hbits]
      exact Nat.lt_size_self grp.N
    have hlen : grp.nbits ≤ 8 * grp.keyLen := by
      unfold EcpGroup.keyLen
      omega
    rw [show (256 : Nat) = 2 ^ 8 from rfl, ← pow_mul]
    exact lt_of_lt_of_le (lt_trans (by omega) hN) (Nat.pow_le_pow_right (by decide) hlen)
  | curve25519 htype _ hbits => exact hmontgomery htype (.inl hbits)
  | curve448 htype _ hbits => exact hmontgomery htype (.inr hbits)

def ecpKeyBytes (grp : EcpGroup) (d : Nat) : ByteString :=
  match mbedtlsEcpGetType grp with
  | .montgomery => toLE grp.keyLen d
  | _ => toBE grp.keyLen d

theorem mbedtlsEcpWriteKeyExt_eq {d buflen : Nat} (hgrp : LoadedGroup grp)
    (h : mbedtlsEcpCheckPrivkey grp d = .ok ()) (hlen : grp.keyLen ≤ buflen) :
    mbedtlsEcpWriteKeyExt grp d buflen = .ok (ecpKeyBytes grp d) := by
  have hlt := lt_keyLen_of_check hgrp h
  unfold mbedtlsEcpWriteKeyExt ecpKeyBytes
  rw [if_neg (by omega)]
  cases hgrp with
  | weierstrass htype _ =>
    rw [htype]
    exact if_neg (by omega)
  | curve25519 htype _ _ =>
    rw [htype]
    exact if_neg (by omega)
  | curve448 htype _ _ =>
    rw [htype]
    exact if_neg (by omega)

theorem ecpReadScalar_keyBytes {d : Nat} (hgrp : LoadedGroup grp)
    (h : mbedtlsEcpCheckPrivkey grp d = .ok ()) :
    ecpReadScalar grp (ecpKeyBytes grp d) = .ok d := by
  have hlt := lt_keyLen_of_check hgrp h
  unfold ecpReadScalar ecpKeyBytes
  cases hgrp with
  | weierstrass htype _ =>
    rw [htype]
    rw [ofBE_toBE, Nat.mod_eq_of_lt hlt]
  | curve25519 htype hid hbits =>
    have hscalar := montgomeryScalar_of_check htype h
    have hlen : grp.keyLen = 32 := by
      unfold EcpGroup.keyLen
      rw [hbits]
    rw [hlen] at hlt
    rw [hbits] at hscalar
    rw [htype]
    rw [if_pos hid, hlen, if_neg (by simp [ecpCurve25519KeySize]), ofLE_toLE_of_lt hlt,
      maskCurve25519_of_scalar hscalar]
  | curve448 htype hid hbits =>
    have hscalar := montgomeryScalar_of_check htype h
    have hlen : grp.keyLen = 56 := by
      unfold EcpGroup.keyLen
      rw [hbits]
    rw [hlen] at hlt
    rw [hbits] at hscalar
    rw [htype]
    rw [if_neg (by rw [hid]; decide), if_pos hid, hlen, if_neg (by simp [ecpCurve448KeySize]),
      ofLE_toLE_of_lt hlt, maskCurve448_of_scalar hscalar]

theorem mbedtlsEcpReadKey_keyBytes {d : Nat} (hload : mbedtlsEcpGroupLoad modp id = .ok grp)
    (h : mbedtlsEcpCheckPrivkey grp d = .ok ()) :
    mbedtlsEcpReadKey modp id (ecpKeyBytes grp d) = .ok (grp, d) := by
  unfold mbedtlsEcpReadKey
  rw [hload]
  dsimp only
  rw [ecpReadScalar_keyBytes (loadedGroup_of_load hload) h]
  dsimp only
  rw [h]

/-! ## Generated scalars -/

theorem mpiCoreRandomLoop_range {rng : Rng σ ε} {min N nBytes nBits count X : Nat} {s s' : σ}
    (h : mpiCoreRandomLoop rng min N nBytes nBits count s = .ok (X, s')) : min ≤ X ∧ X < N := by
  induction count generalizing s with
  | zero => cases h
  | succ count ih =>
    unfold mpiCoreRandomLoop at h
    rcases hdraw : rng.draw s nBytes with e | ⟨bytes, s₁⟩
    · rw [hdraw] at h
      cases h
    rw [hdraw] at h
    dsimp only at h
    split at h
    · cases h
    split at h
    · next hrange =>
      cases h
      exact hrange
    · exact ih h

theorem mbedtlsEcpGenPrivkey_check {rng : Rng σ ε} {d : Nat} {s s' : σ} (hgrp : LoadedGroup grp)
    (h : mbedtlsEcpGenPrivkey rng grp s = .ok (d, s')) :
    mbedtlsEcpCheckPrivkey grp d = .ok () := by
  have hmontgomery : mbedtlsEcpGetType grp = .montgomery → 2 < grp.nbits →
      mbedtlsEcpCheckPrivkey grp d = .ok () := by
    intro htype hbits
    unfold mbedtlsEcpGenPrivkey mbedtlsEcpGenPrivkeyMx at h
    rw [htype] at h
    dsimp only at h
    rcases hdraw : rng.draw s (grp.nbits / 8 + 1) with e | ⟨bytes, s₁⟩
    · rw [hdraw] at h
      cases h
    rw [hdraw] at h
    cases h
    refine (genPrivkeyMxBits_scalar hbits ?_).check htype
    have hlt := ofBE_lt bytes
    rw [rng.length_draw hdraw, show (256 : Nat) = 2 ^ 8 from rfl, ← pow_mul] at hlt
    rw [Nat.shiftRight_eq_div_pow]
    apply Nat.div_lt_of_lt_mul
    rw [← pow_add]
    exact lt_of_lt_of_le hlt (Nat.pow_le_pow_right (by decide) (by omega))
  cases hgrp with
  | weierstrass htype _ =>
    unfold mbedtlsEcpGenPrivkey mbedtlsEcpGenPrivkeySw at h
    rw [htype] at h
    dsimp only at h
    have hrandom : mbedtlsMpiRandom rng 1 grp.N s = .ok (d, s') := by
      split at h
      · cases h
      · exact h
    unfold mbedtlsMpiRandom at hrandom
    split at hrandom
    · cases hrandom
    obtain ⟨hmin, hmax⟩ := mpiCoreRandomLoop_range hrandom
    unfold mbedtlsEcpCheckPrivkey
    rw [htype]
    exact if_neg (by omega)
  | curve25519 htype _ hbits => exact hmontgomery htype (by omega)
  | curve448 htype _ hbits => exact hmontgomery htype (by omega)

end TfPsaCrypto.Ecp
