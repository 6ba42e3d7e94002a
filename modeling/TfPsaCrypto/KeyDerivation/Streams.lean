import TfPsaCrypto.KeyDerivation.Operation
import TfPsaCrypto.Library.BlockStream

/-!
# The output streams of the standards

The blocks of output of RFC 5869 (HKDF), RFC 5246 (the TLS 1.2 PRF) and RFC 8018 (PBKDF2), with
the MAC as a parameter, and the premaster secrets of RFC 4279 and RFC 5489.
-/

namespace TfPsaCrypto

open Bytes (ByteString)

/-! ## RFC 5869 -/

/-- `T(i)` of HKDF-Expand, for `mac` the HMAC under the pseudorandom key. -/
def hkdfT (mac : ByteString → ByteString) (info : ByteString) : Nat → ByteString
  | 0 => []
  | i + 1 => mac (hkdfT mac info i ++ info ++ Bytes.toBE 1 (i + 1))

/-- HKDF-Extract. A salt that is not given is `hashLength` zeros. -/
def hkdfExtractPrk (hmac : ByteString → ByteString → ByteString) (hashLength : Nat)
    (salt : Option ByteString) (secret : ByteString) : ByteString :=
  hmac (salt.getD (List.replicate hashLength 0)) secret

/-! ## RFC 5246 -/

/-- `A(i)` of `P_hash`, for `mac` the HMAC under the secret. -/
def tlsA (mac : ByteString → ByteString) (seed : ByteString) : Nat → ByteString
  | 0 => seed
  | i + 1 => mac (tlsA mac seed i)

/-- Block `i` of `P_hash`. -/
def tlsPHash (mac : ByteString → ByteString) (seed : ByteString) (i : Nat) :
    ByteString :=
  mac (tlsA mac seed i ++ seed)

/-- A byte string behind its length as a `uint16`, reduced for `2 ^ 16` bytes and more. -/
def uint16Prefixed (s : ByteString) : ByteString := Bytes.toBE 2 s.length ++ s

/-- The premaster secret of RFC 4279, section 2 (by default zeros as long as the PSK), and of RFC
5489, section 2. -/
def pskPremasterSecret (otherSecret : Option ByteString) (psk : ByteString) :
    ByteString :=
  uint16Prefixed (otherSecret.getD (List.replicate psk.length 0)) ++ uint16Prefixed psk

/-! ## RFC 8018 -/

/-- `U_{j + 1}` of block `i`, for `prf` the function under the password. -/
def pbkdf2U (prf : ByteString → ByteString) (salt : ByteString) (i : Nat) :
    Nat → ByteString
  | 0 => prf (salt ++ Bytes.toBE 4 i)
  | j + 1 => prf (pbkdf2U prf salt i j)

def pbkdf2Xor (prf : ByteString → ByteString) (salt : ByteString) (i : Nat) :
    Nat → ByteString
  | 0 => pbkdf2U prf salt i 0
  | j + 1 => Bytes.xor (pbkdf2Xor prf salt i j) (pbkdf2U prf salt i (j + 1))

def pbkdf2F (prf : ByteString → ByteString) (salt : ByteString) (c i : Nat) :
    ByteString :=
  pbkdf2Xor prf salt i (c - 1)

def aesCmacPrf128 (aesCmac : ByteString → ByteString → ByteString)
    (key message : ByteString) : ByteString :=
  if key.length = 16 then aesCmac key message
  else aesCmac (aesCmac (List.replicate 16 0) key) message

/-! ## The key derivation algorithms -/

inductive Kdf where
  | hkdf
  | hkdfExtract
  | hkdfExpand
  | tls12Prf
  | tls12PskToMs
  | tls12EcjpakeToPms
  | pbkdf2Hmac
  | pbkdf2AesCmacPrf128
  deriving DecidableEq, Repr

def Kdf.Is : Kdf → PsaAlgorithm → Bool
  | .hkdf, alg => psaAlgIsHkdf alg
  | .hkdfExtract, alg => psaAlgIsHkdfExtract alg
  | .hkdfExpand, alg => psaAlgIsHkdfExpand alg
  | .tls12Prf, alg => psaAlgIsTls12Prf alg
  | .tls12PskToMs, alg => psaAlgIsTls12PskToMs alg
  | .tls12EcjpakeToPms, alg => alg = psaAlgTls12EcjpakeToPms
  | .pbkdf2Hmac, alg => psaAlgIsPbkdf2Hmac alg
  | .pbkdf2AesCmacPrf128, alg => alg = psaAlgPbkdf2AesCmacPrf128

def Kdf.base : Kdf → PsaAlgorithm
  | .hkdf => psaAlgHkdfBase
  | .hkdfExtract => psaAlgHkdfExtractBase
  | .hkdfExpand => psaAlgHkdfExpandBase
  | .tls12Prf => psaAlgTls12PrfBase
  | .tls12PskToMs => psaAlgTls12PskToMsBase
  | .tls12EcjpakeToPms => 0x08000600
  | .pbkdf2Hmac => psaAlgPbkdf2HmacBase
  | .pbkdf2AesCmacPrf128 => 0x08800200

variable {alg : PsaAlgorithm} {k k' : Kdf}

theorem Kdf.base_of_is (h : k.Is alg = true) : alg &&& ~~~psaAlgHashMask = k.base := by
  cases k with
  | tls12EcjpakeToPms =>
    rw [of_decide_eq_true (p := alg = psaAlgTls12EcjpakeToPms) h]
    rfl
  | pbkdf2AesCmacPrf128 =>
    rw [of_decide_eq_true (p := alg = psaAlgPbkdf2AesCmacPrf128) h]
    rfl
  | _ => exact of_decide_eq_true h

theorem Kdf.base_injective (h : k.base = k'.base) : k = k' := by
  cases k <;> cases k' <;> first | rfl | (exact absurd h (by decide))

theorem Kdf.is_iff (h : k.Is alg = true) (k' : Kdf) : k'.Is alg = decide (k' = k) := by
  by_cases hk : k' = k
  · simp [hk, h]
  · have hnot : k'.Is alg ≠ true := fun h' =>
      hk (base_injective ((base_of_is h').symm.trans (base_of_is h)))
    simpa [hk] using hnot

theorem isKdfAlgSupported_iff : isKdfAlgSupported alg = true ↔ ∃ k : Kdf, k.Is alg = true := by
  constructor
  · intro h
    simp only [isKdfAlgSupported, Bool.or_eq_true] at h
    rcases h with ((((((h | h) | h) | h) | h) | h) | h) | h
    · exact ⟨.hkdf, h⟩
    · exact ⟨.hkdfExtract, h⟩
    · exact ⟨.hkdfExpand, h⟩
    · exact ⟨.tls12Prf, h⟩
    · exact ⟨.tls12PskToMs, h⟩
    · exact ⟨.tls12EcjpakeToPms, h⟩
    · exact ⟨.pbkdf2Hmac, h⟩
    · exact ⟨.pbkdf2AesCmacPrf128, h⟩
  · rintro ⟨k, h⟩
    cases k <;> simp_all [Kdf.Is, isKdfAlgSupported]

/-! ## The inputs of an operation and its stream -/

structure KdfInputs where
  bytes : PsaKeyDerivationStep → List ByteString
  costs : List Nat

def KdfInputs.empty : KdfInputs :=
  { bytes := fun _ => [], costs := [] }

def KdfInputs.supply (inputs : KdfInputs) :
    Option (PsaKeyDerivationStep × KdfInput) → KdfInputs
  | none => inputs
  | some (step, .bytes data) =>
    { inputs with
      bytes := Function.update inputs.bytes step (inputs.bytes step ++ [data]) }
  | some (_, .integer value) => { inputs with costs := inputs.costs ++ [value] }

section Supply

variable (inputs : KdfInputs) (step t : PsaKeyDerivationStep) (data : ByteString) (value : Nat)

@[simp] theorem KdfInputs.supply_none : inputs.supply none = inputs := rfl

@[simp] theorem KdfInputs.supply_bytes :
    (inputs.supply (some (step, .bytes data))).bytes t =
      if t = step then inputs.bytes step ++ [data] else inputs.bytes t := by
  simp [supply, Function.update_apply]

@[simp] theorem KdfInputs.supply_bytes_costs :
    (inputs.supply (some (step, .bytes data))).costs = inputs.costs := rfl

@[simp] theorem KdfInputs.supply_integer_bytes :
    (inputs.supply (some (step, .integer value))).bytes = inputs.bytes := rfl

@[simp] theorem KdfInputs.supply_integer_costs :
    (inputs.supply (some (step, .integer value))).costs = inputs.costs ++ [value] := rfl

end Supply

def KdfInputs.first (inputs : KdfInputs) (step : PsaKeyDerivationStep) : ByteString :=
  (inputs.bytes step).headD []

def KdfInputs.Complete (inputs : KdfInputs) : Kdf → Prop
  | .hkdf => (inputs.bytes .secret).length = 1 ∧ (inputs.bytes .info).length = 1 ∧
      (inputs.bytes .salt).length ≤ 1
  | .hkdfExtract => (inputs.bytes .salt).length = 1 ∧ (inputs.bytes .secret).length = 1
  | .hkdfExpand => (inputs.bytes .secret).length = 1 ∧ (inputs.bytes .info).length = 1
  | .tls12Prf => (inputs.bytes .seed).length = 1 ∧ (inputs.bytes .secret).length = 1 ∧
      (inputs.bytes .label).length = 1
  | .tls12PskToMs => (inputs.bytes .seed).length = 1 ∧
      (inputs.bytes .secret).length = 1 ∧ (inputs.bytes .label).length = 1 ∧
      (inputs.bytes .otherSecret).length ≤ 1
  | .tls12EcjpakeToPms => (inputs.bytes .secret).length = 1
  | .pbkdf2Hmac | .pbkdf2AesCmacPrf128 => inputs.costs.length = 1 ∧
      inputs.bytes .salt ≠ [] ∧ (inputs.bytes .password).length = 1

def Kdf.blockSize (k : Kdf) (alg : PsaAlgorithm) : Nat :=
  match k with
  | .tls12EcjpakeToPms => 32
  | .pbkdf2AesCmacPrf128 => 16
  | _ => psaHashLength (psaAlgKdfGetHash alg)

variable (P : KdfPlatform)

def hkdfPrk (k : Kdf) (alg : PsaAlgorithm) (inputs : KdfInputs) : ByteString :=
  let hashAlg := psaAlgKdfGetHash alg
  if k = .hkdfExpand then inputs.first .secret
  else hkdfExtractPrk (P.hmac hashAlg) (psaHashLength hashAlg)
    (inputs.bytes .salt).head? (inputs.first .secret)

def tlsSecret (k : Kdf) (inputs : KdfInputs) : ByteString :=
  if k = .tls12PskToMs then
    pskPremasterSecret (inputs.bytes .otherSecret).head? (inputs.first .secret)
  else inputs.first .secret

def pbkdf2PasswordPrf (k : Kdf) (alg : PsaAlgorithm) (inputs : KdfInputs) :
    ByteString → ByteString :=
  if k = .pbkdf2AesCmacPrf128 then aesCmacPrf128 P.aesCmac (inputs.first .password)
  else P.hmac (psaAlgKdfGetHash alg) (inputs.first .password)

def kdfBlock (k : Kdf) (alg : PsaAlgorithm) (inputs : KdfInputs) (i : Nat) :
    ByteString :=
  let hmac := P.hmac (psaAlgKdfGetHash alg)
  match k with
  | .hkdf | .hkdfExpand =>
    hkdfT (hmac (hkdfPrk P k alg inputs)) (inputs.first .info) (i + 1)
  | .hkdfExtract => hkdfPrk P k alg inputs
  | .tls12Prf | .tls12PskToMs => tlsPHash (hmac (tlsSecret k inputs))
      (inputs.first .label ++ inputs.first .seed) (i + 1)
  | .tls12EcjpakeToPms =>
    P.hash psaAlgSha256 (((inputs.first .secret).drop 1).take 32)
  | .pbkdf2Hmac | .pbkdf2AesCmacPrf128 =>
    pbkdf2F (pbkdf2PasswordPrf P k alg inputs) (inputs.bytes .salt).flatten
      (inputs.costs.headD 0) (i + 1)

/-! ## Lengths -/

theorem length_pbkdf2Xor {prf : ByteString → ByteString} {n : Nat}
    (h : ∀ m, (prf m).length = n) (salt : ByteString) (i j : Nat) :
    (pbkdf2Xor prf salt i j).length = n := by
  have hU : ∀ j, (pbkdf2U prf salt i j).length = n := by
    intro j
    cases j <;> exact h _
  induction j with
  | zero => exact hU 0
  | succ j ih => rw [pbkdf2Xor, Bytes.length_xor, ih, hU, Nat.min_self]

theorem length_aesCmacPrf128 (key m : ByteString) :
    (aesCmacPrf128 P.aesCmac key m).length = 16 := by
  unfold aesCmacPrf128
  split <;> exact P.length_aesCmac _ _

theorem length_kdfBlock (k : Kdf) (alg : PsaAlgorithm) (inputs : KdfInputs) (i : Nat)
    (h : k ≠ .tls12EcjpakeToPms) :
    (kdfBlock P k alg inputs i).length = k.blockSize alg := by
  cases k with
  | tls12EcjpakeToPms => exact absurd rfl h
  | hkdf | hkdfExpand | tls12Prf | tls12PskToMs => exact P.length_hmac _ _ _
  | hkdfExtract => exact P.length_hmac _ _ _
  | pbkdf2Hmac => exact length_pbkdf2Xor (P.length_hmac _ _) _ _ _
  | pbkdf2AesCmacPrf128 => exact length_pbkdf2Xor (length_aesCmacPrf128 P _) _ _ _

end TfPsaCrypto
