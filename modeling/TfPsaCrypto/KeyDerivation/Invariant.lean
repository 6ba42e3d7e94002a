import TfPsaCrypto.KeyDerivation.Input
import TfPsaCrypto.KeyDerivation.Streams

/-!
# The context of an operation, from its inputs

What the context of an operation holds that has taken certain inputs and stands at a certain
position of its output stream.
-/

namespace TfPsaCrypto

open Bytes (ByteString)

variable (P : KdfPlatform) (k : Kdf) (alg : PsaAlgorithm) (inputs : KdfInputs) (pos : Nat)

/-! ## The invariant -/

def HkdfKeyed (hkdf : PsaHkdfKeyDerivation) : Prop :=
  (inputs.bytes .secret).length = 1 ∧ (inputs.bytes .salt).length ≤ 1 ∧
    (k = .hkdfExtract → inputs.bytes .salt ≠ []) ∧
    hkdf.prk = hkdfPrk P k alg inputs

/-- The block that HKDF holds at position `pos`; block 0 is empty. -/
def HkdfReading (hkdf : PsaHkdfKeyDerivation) : Prop :=
  hkdf.offsetInBlock ≤ k.blockSize alg ∧
  if k = .hkdfExtract then
    hkdf.blockNumber = 0 ∧ hkdf.offsetInBlock = pos ∧ hkdf.outputBlock = kdfBlock P k alg inputs 0
  else
    hkdf.infoSet = true ∧ hkdf.blockNumber ≤ 0xff ∧
      pos + k.blockSize alg = hkdf.blockNumber * k.blockSize alg + hkdf.offsetInBlock ∧
      ∀ i, hkdf.blockNumber = i + 1 → hkdf.outputBlock = kdfBlock P k alg inputs i

structure HkdfInv (hkdf : PsaHkdfKeyDerivation) : Prop where
  info_set : hkdf.infoSet = true → inputs.bytes .info = [hkdf.info]
  info_unset : hkdf.infoSet = false → inputs.bytes .info = []
  state : match hkdf.state with
    | .init => inputs.bytes .salt = [] ∧ inputs.bytes .secret = [] ∧ pos = 0
    | .started => inputs.bytes .salt = [hkdf.hmac] ∧ inputs.bytes .secret = [] ∧ pos = 0
    | .keyed => HkdfKeyed P k alg inputs hkdf ∧ pos = 0 ∧ hkdf.blockNumber = 0 ∧
        if k = .hkdfExtract then hkdf.offsetInBlock = 0 ∧ hkdf.outputBlock = hkdf.prk
        else hkdf.offsetInBlock = k.blockSize alg
    | .output => HkdfKeyed P k alg inputs hkdf ∧ HkdfReading P k alg inputs pos hkdf

/-- The block that the TLS PRF holds at position `pos`. -/
def Tls12PrfReading (prf : PsaTls12PrfKeyDerivation) : Prop :=
  prf.leftInBlock ≤ k.blockSize alg ∧ prf.blockNumber ≤ 0xff ∧
    pos + prf.leftInBlock = prf.blockNumber * k.blockSize alg ∧
    ∀ i, prf.blockNumber = i + 1 →
      prf.outputBlock = kdfBlock P k alg inputs i ∧
      prf.ai = tlsA (P.hmac (psaAlgKdfGetHash alg) (tlsSecret k inputs))
        (inputs.first .label ++ inputs.first .seed) (i + 1)

structure Tls12PrfInv (prf : PsaTls12PrfKeyDerivation) : Prop where
  reading : Tls12PrfReading P k alg inputs pos prf
  started : prf.state ≠ .output → prf.blockNumber = 0
  other : k = .tls12Prf → prf.state ≠ .otherKeySet
  other_le : (inputs.bytes .otherSecret).length ≤ 1
  state : match prf.state with
    | .init => inputs.bytes .seed = [] ∧ inputs.bytes .otherSecret = [] ∧
        inputs.bytes .secret = [] ∧ inputs.bytes .label = []
    | .seedSet => inputs.bytes .seed = [prf.seed] ∧ inputs.bytes .otherSecret = [] ∧
        inputs.bytes .secret = [] ∧ inputs.bytes .label = []
    | .otherKeySet => inputs.bytes .seed = [prf.seed] ∧
        inputs.bytes .otherSecret = [prf.otherSecret] ∧
        inputs.bytes .secret = [] ∧ inputs.bytes .label = []
    | .keySet => inputs.bytes .seed = [prf.seed] ∧
        (inputs.bytes .secret).length = 1 ∧ prf.secret = tlsSecret k inputs ∧
        inputs.bytes .label = []
    | .labelSet | .output => inputs.bytes .seed = [prf.seed] ∧
        (inputs.bytes .secret).length = 1 ∧ prf.secret = tlsSecret k inputs ∧
        inputs.bytes .label = [prf.label]

/-- The block that PBKDF2 holds at position `pos`; block 0 is empty. -/
def Pbkdf2Reading (pbkdf2 : PsaPbkdf2KeyDerivation) : Prop :=
  pbkdf2.bytesUsed ≤ k.blockSize alg ∧
    pos + k.blockSize alg = pbkdf2.blockNumber * k.blockSize alg + pbkdf2.bytesUsed ∧
    ∀ i, pbkdf2.blockNumber = i + 1 → pbkdf2.outputBlock = kdfBlock P k alg inputs i

def pbkdf2DriverPrf : ByteString → ByteString → ByteString :=
  if k = .pbkdf2AesCmacPrf128 then P.aesCmac else P.hmac (psaAlgKdfGetHash alg)

def Pbkdf2Keyed (pbkdf2 : PsaPbkdf2KeyDerivation) : Prop :=
  inputs.costs = [pbkdf2.inputCost] ∧ inputs.bytes .salt ≠ [] ∧
    pbkdf2.salt = (inputs.bytes .salt).flatten ∧
    (inputs.bytes .password).length = 1 ∧
    pbkdf2DriverPrf P k alg pbkdf2.password = pbkdf2PasswordPrf P k alg inputs

structure Pbkdf2Inv (pbkdf2 : PsaPbkdf2KeyDerivation) : Prop where
  started : pbkdf2.state ≠ .output → pbkdf2.blockNumber = 0 ∧ pos = 0
  state : match pbkdf2.state with
    | .init => inputs.costs = [] ∧ inputs.bytes .salt = [] ∧
        inputs.bytes .password = [] ∧ pbkdf2.salt = []
    | .inputCostSet => inputs.costs = [pbkdf2.inputCost] ∧ inputs.bytes .salt = [] ∧
        inputs.bytes .password = [] ∧ pbkdf2.salt = []
    | .saltSet => inputs.costs = [pbkdf2.inputCost] ∧ inputs.bytes .salt ≠ [] ∧
        inputs.bytes .password = [] ∧ pbkdf2.salt = (inputs.bytes .salt).flatten
    | .passwordSet => Pbkdf2Keyed P k alg inputs pbkdf2
    | .output => Pbkdf2Keyed P k alg inputs pbkdf2 ∧ Pbkdf2Reading P k alg inputs pos pbkdf2

/-- An operation of kind `k` after `inputs`, at `pos` of its stream. The context of ECJPAKE-to-PMS
holds no state. -/
def KdfInv (ctx : PsaKeyDerivationContext) : Prop :=
  match k with
  | .hkdf | .hkdfExtract | .hkdfExpand => HkdfInv P k alg inputs pos ctx.hkdf
  | .tls12Prf | .tls12PskToMs => Tls12PrfInv P k alg inputs pos ctx.tls12Prf
  | .tls12EcjpakeToPms => True
  | .pbkdf2Hmac | .pbkdf2AesCmacPrf128 => Pbkdf2Inv P k alg inputs pos ctx.pbkdf2

theorem kdfInv_zero : KdfInv P k alg .empty 0 psaKeyDerivationContextZero := by
  cases k with
  | hkdf | hkdfExtract | hkdfExpand =>
    exact ⟨nofun, fun _ => rfl, rfl, rfl, rfl⟩
  | tls12Prf | tls12PskToMs =>
    refine ⟨⟨Nat.zero_le _, Nat.zero_le _, by simp [psaKeyDerivationContextZero],
      nofun⟩, fun _ => rfl, nofun, Nat.zero_le _, rfl, rfl, rfl, rfl⟩
  | tls12EcjpakeToPms => trivial
  | pbkdf2Hmac | pbkdf2AesCmacPrf128 =>
    exact ⟨fun _ => ⟨rfl, rfl⟩, rfl, rfl, rfl, rfl⟩

/-! ## Accepted inputs -/

variable {hkdf hkdf' : PsaHkdfKeyDerivation} {prf prf' : PsaTls12PrfKeyDerivation}
  {pbkdf2 pbkdf2' : PsaPbkdf2KeyDerivation}

section Input

variable {P k alg inputs pos} {env : InputEnv} {data : ByteString}
  {step : PsaKeyDerivationStep}

theorem HkdfInv.salt (h : HkdfInv P k alg inputs pos hkdf)
    (hin : hkdfInputSalt env hkdf alg data = .ok hkdf') :
    HkdfInv P k alg (inputs.supply (some (.salt, .bytes data))) pos hkdf' := by
  unfold hkdfInputSalt at hin
  split at hin
  · cases hin
  split at hin
  · cases hin
  split at hin
  · cases hin
  cases hin
  next _ hinit _ =>
    have hst := h.state
    simp only [not_not.mp hinit] at hst
    obtain ⟨hsalt, hsecret, hpos⟩ := hst
    exact ⟨by simpa using h.info_set, by simpa using h.info_unset, by simp [hsalt, hsecret, hpos]⟩

theorem HkdfInv.prk {prk : ByteString} (h : HkdfInv P k alg inputs pos hkdf) (hk : k.Is alg = true)
    (hin : hkdfInputPrk P env hkdf alg data = .ok prk) :
    inputs.bytes .secret = [] ∧ (inputs.bytes .salt).length ≤ 1 ∧
      (k = .hkdfExtract → inputs.bytes .salt ≠ []) ∧ pos = 0 ∧
      prk = hkdfPrk P k alg (inputs.supply (some (.secret, .bytes data))) := by
  have hexpand : psaAlgIsHkdfExpand alg = decide (Kdf.hkdfExpand = k) := Kdf.is_iff hk .hkdfExpand
  have hextract : psaAlgIsHkdfExtract alg = decide (Kdf.hkdfExtract = k) :=
    Kdf.is_iff hk .hkdfExtract
  have hst := h.state
  unfold hkdfInputPrk at hin
  dsimp only at hin
  rw [hexpand, hextract] at hin
  split at hin
  · next hk' =>
    obtain rfl := of_decide_eq_true hk'
    split at hin
    · cases hin
    split at hin
    · cases hin
    cases hin
    next hinit _ =>
      simp only [not_not.mp hinit] at hst
      obtain ⟨hsalt, hsecret, hpos⟩ := hst
      simp [hsalt, hsecret, hpos, hkdfPrk, KdfInputs.first]
  next hnot =>
  have hne : k ≠ .hkdfExpand := fun hk' => hnot (by simp [hk'])
  split at hin
  · -- no salt: the key of zeros
    next hinit =>
      split at hin
      · cases hin
      split at hin
      · cases hin
      next hmode _ =>
        unfold macCompute at hin
        split at hin
        · cases hin
          simp only [hinit] at hst
          obtain ⟨hsalt, hsecret, hpos⟩ := hst
          have hfits : ([] : ByteString).length + psaHashLength (psaAlgKdfGetHash alg)
              ≤ psaHashBlockLength (psaAlgKdfGetHash alg) := by
            simpa using psaHashLength_le_blockLength _
          have hpad := Hmac.hmac_pad (H := P.hash (psaAlgKdfGetHash alg)) hfits data
          have hkeys : P.hmac (psaAlgKdfGetHash alg) [] data
              = P.hmac (psaAlgKdfGetHash alg)
                (List.replicate (psaHashLength (psaAlgKdfGetHash alg)) 0) data :=
            hpad.symm
          refine ⟨hsecret, by simp [hsalt], fun hk' => ?_, hpos, ?_⟩
          · simp [hk'] at hmode
          · simp [hkdfPrk, hne, hsalt, hsecret, KdfInputs.first, hkdfExtractPrk, hkeys]
        · cases hin
  split at hin
  · cases hin
  next hstarted =>
    unfold macCompute at hin
    split at hin
    · cases hin
      simp only [not_not.mp hstarted] at hst
      obtain ⟨hsalt, hsecret, hpos⟩ := hst
      simp [hkdfPrk, hne, hsalt, hsecret, hpos, KdfInputs.first, hkdfExtractPrk]
    · cases hin

theorem HkdfInv.secret (h : HkdfInv P k alg inputs pos hkdf) (hk : k.Is alg = true)
    (hfam : k = .hkdf ∨ k = .hkdfExtract ∨ k = .hkdfExpand)
    (hin : hkdfInputSecret P env hkdf alg data = .ok hkdf') :
    HkdfInv P k alg (inputs.supply (some (.secret, .bytes data))) pos hkdf' := by
  have hextract : psaAlgIsHkdfExtract alg = decide (Kdf.hkdfExtract = k) :=
    Kdf.is_iff hk .hkdfExtract
  unfold hkdfInputSecret at hin
  rw [hextract] at hin
  cases hprk : hkdfInputPrk P env hkdf alg data with
  | error e =>
    rw [hprk] at hin
    cases hin
  | ok prk =>
    rw [hprk] at hin
    obtain ⟨hsecret, hsalt, hmode, hpos, hval⟩ := h.prk hk hprk
    have hkeyed : ∀ c : PsaHkdfKeyDerivation, c.prk = prk →
        HkdfKeyed P k alg (inputs.supply (some (.secret, .bytes data))) c :=
      fun c hc => ⟨by simp [hsecret], by simpa using hsalt, by simpa using hmode, hc.trans hval⟩
    by_cases hx : k = .hkdfExtract
    · simp only [hx, decide_true, if_true, bind, Except.bind, pure, Except.pure] at hin
      cases hin
      exact ⟨by simpa using h.info_set, by simpa using h.info_unset,
        hkeyed _ rfl, hpos, rfl, by simp [hx]⟩
    · have hsize : k.blockSize alg = psaHashLength (psaAlgKdfGetHash alg) := by
        rcases hfam with rfl | rfl | rfl <;> rfl
      have hx' : Kdf.hkdfExtract ≠ k := Ne.symm hx
      simp only [hx', decide_false, Bool.false_eq_true, if_false, bind, Except.bind,
        pure, Except.pure] at hin
      cases hin
      exact ⟨by simpa using h.info_set, by simpa using h.info_unset,
        hkeyed _ rfl, hpos, rfl, by simp [hx, hsize]⟩

theorem copyInput_eq {calloc : Bool} {copy : ByteString}
    (h : copyInput calloc data = .ok copy) : copy = data := by
  unfold copyInput at h
  split at h
  · cases h
    simp_all
  split at h
  · cases h
    rfl
  · cases h

theorem HkdfInv.info (h : HkdfInv P k alg inputs pos hkdf)
    (hin : hkdfInputInfo env hkdf alg data = .ok hkdf') :
    HkdfInv P k alg (inputs.supply (some (.info, .bytes data))) pos hkdf' := by
  have hprk : hkdfPrk P k alg (inputs.supply (some (.info, .bytes data)))
      = hkdfPrk P k alg inputs := by
    simp [hkdfPrk, KdfInputs.first]
  unfold hkdfInputInfo at hin
  split at hin
  · cases hin
  split at hin
  · cases hin
  split at hin
  · cases hin
  split at hin
  · cases hin
  next hnot hunset =>
    cases hcopy : copyInput env.calloc data with
    | error e =>
      rw [hcopy] at hin
      cases hin
    | ok info =>
      rw [hcopy, copyInput_eq hcopy] at hin
      cases hin
      have hempty := h.info_unset (by simpa using hunset)
      refine ⟨by simp [hempty], by simp, ?_⟩
      have hst := h.state
      cases hstate : hkdf.state with
      | init | started => simpa [hstate] using hst
      | keyed =>
        simp only [hstate] at hst ⊢
        obtain ⟨⟨hsecret, hsalt, hmode, hval⟩, hrest⟩ := hst
        exact ⟨⟨by simpa using hsecret, by simpa using hsalt, by simpa using hmode,
          hval.trans hprk.symm⟩, hrest⟩
      | output => exact absurd hstate hnot

theorem HkdfInv.input (h : HkdfInv P k alg inputs pos hkdf) (hk : k.Is alg = true)
    (hfam : k = .hkdf ∨ k = .hkdfExtract ∨ k = .hkdfExpand)
    (hin : psaHkdfInput P env hkdf alg step data = .ok hkdf') :
    HkdfInv P k alg (inputs.supply (some (step, .bytes data))) pos hkdf' := by
  cases step with
  | salt => exact h.salt hin
  | secret => exact h.secret hk hfam hin
  | info => exact h.info hin
  | _ => cases hin

theorem Tls12PrfReading.of_blockNumber (h : Tls12PrfReading P k alg inputs pos prf)
    (hzero : prf.blockNumber = 0) (hnumber : prf'.blockNumber = prf.blockNumber)
    (hleft : prf'.leftInBlock = prf.leftInBlock) (inputs' : KdfInputs) :
    Tls12PrfReading P k alg inputs' pos prf' := by
  obtain ⟨hle, hlt, hpos, _⟩ := h
  refine ⟨hleft ▸ hle, hnumber ▸ hlt, by rw [hleft, hnumber]; exact hpos, ?_⟩
  intro i hi
  omega

theorem Tls12PrfInv.setSeed (h : Tls12PrfInv P k alg inputs pos prf)
    (hin : psaTls12PrfSetSeed env prf data = .ok prf') :
    Tls12PrfInv P k alg (inputs.supply (some (.seed, .bytes data))) pos prf' := by
  unfold psaTls12PrfSetSeed at hin
  split at hin
  · cases hin
  next hinit =>
    have hinit := not_not.mp hinit
    cases hcopy : copyInput env.calloc data with
    | error e =>
      rw [hcopy] at hin
      cases hin
    | ok seed =>
      rw [hcopy, copyInput_eq hcopy] at hin
      cases hin
      have hst := h.state
      simp only [hinit] at hst
      have hzero := h.started (by simp [hinit])
      exact ⟨h.reading.of_blockNumber hzero rfl rfl _, fun _ => hzero,
        fun _ => by simp, by simpa using h.other_le, by simp [hst]⟩

theorem Tls12PrfInv.setLabel (h : Tls12PrfInv P k alg inputs pos prf)
    (hin : psaTls12PrfSetLabel env prf data = .ok prf') :
    Tls12PrfInv P k alg (inputs.supply (some (.label, .bytes data))) pos prf' := by
  have hsecret : tlsSecret k (inputs.supply (some (.label, .bytes data)))
      = tlsSecret k inputs := by
    simp [tlsSecret, KdfInputs.first]
  unfold psaTls12PrfSetLabel at hin
  split at hin
  · cases hin
  next hset =>
    have hset := not_not.mp hset
    cases hcopy : copyInput env.calloc data with
    | error e =>
      rw [hcopy] at hin
      cases hin
    | ok label =>
      rw [hcopy, copyInput_eq hcopy] at hin
      cases hin
      have hst := h.state
      simp only [hset] at hst
      have hzero := h.started (by simp [hset])
      exact ⟨h.reading.of_blockNumber hzero rfl rfl _, fun _ => hzero,
        fun _ => by simp, by simpa using h.other_le, by simp [hst, hsecret]⟩

theorem Tls12PrfInv.setKey {x o : ByteString} (h : Tls12PrfInv P k alg inputs pos prf)
    (hval : data = tlsSecret k (inputs.supply (some (.secret, .bytes x))))
    (hin : psaTls12PrfSetKey env { prf with otherSecret := o } data = .ok prf') :
    Tls12PrfInv P k alg (inputs.supply (some (.secret, .bytes x))) pos prf' := by
  unfold psaTls12PrfSetKey at hin
  split at hin
  · cases hin
  next hset =>
    cases hcopy : copyInput env.calloc data with
    | error e =>
      rw [hcopy] at hin
      cases hin
    | ok secret =>
      rw [hcopy, copyInput_eq hcopy] at hin
      cases hin
      have hstates : prf.state = .seedSet ∨ prf.state = .otherKeySet := by
        by_contra hnot
        exact hset ⟨fun he => hnot (.inl he), fun he => hnot (.inr he)⟩
      have hzero := h.started (by rcases hstates with he | he <;> simp [he])
      have hst : inputs.bytes .seed = [prf.seed] ∧ inputs.bytes .secret = [] ∧
          inputs.bytes .label = [] := by
        have hst := h.state
        rcases hstates with he | he <;> simp only [he] at hst <;> simp [hst]
      exact ⟨h.reading.of_blockNumber hzero rfl rfl _, fun _ => hzero,
        fun _ => by simp, by simpa using h.other_le, by simp [hst, hval]⟩

theorem Tls12PrfInv.setOtherKey (h : Tls12PrfInv P .tls12PskToMs alg inputs pos prf)
    (hin : psaTls12PrfPskToMsSetOtherKey env prf data = .ok prf') :
    Tls12PrfInv P .tls12PskToMs alg (inputs.supply (some (.otherSecret, .bytes data)))
      pos prf' := by
  unfold psaTls12PrfPskToMsSetOtherKey at hin
  split at hin
  · cases hin
  next hset =>
    have hset := not_not.mp hset
    cases hcopy : copyInput env.calloc data with
    | error e =>
      rw [hcopy] at hin
      cases hin
    | ok otherSecret =>
      rw [hcopy, copyInput_eq hcopy] at hin
      cases hin
      have hst := h.state
      simp only [hset] at hst
      have hzero := h.started (by simp [hset])
      exact ⟨h.reading.of_blockNumber hzero rfl rfl _, fun _ => hzero,
        nofun, by simp [hst], by simp [hst]⟩

theorem Tls12PrfInv.pskToMsSetKey (h : Tls12PrfInv P .tls12PskToMs alg inputs pos prf)
    (hin : psaTls12PrfPskToMsSetKey env prf data = .ok prf') :
    Tls12PrfInv P .tls12PskToMs alg (inputs.supply (some (.secret, .bytes data))) pos prf' := by
  unfold psaTls12PrfPskToMsSetKey at hin
  split at hin
  · cases hin
  split at hin
  · cases hin
  dsimp only at hin
  have hst := h.state
  by_cases hother : prf.state = .otherKeySet
  · rw [if_pos hother, if_pos hother] at hin
    simp only [hother] at hst
    refine h.setKey ?_ hin
    simp [tlsSecret, KdfInputs.first, pskPremasterSecret, uint16Prefixed, hst]
  · rw [if_neg hother, if_neg hother] at hin
    have hseed : prf.state = .seedSet := by
      unfold psaTls12PrfSetKey at hin
      split at hin
      · cases hin
      · next hset =>
        by_contra hnot
        exact hset ⟨hnot, hother⟩
    simp only [hseed] at hst
    refine h.setKey (o := prf.otherSecret) ?_ hin
    simp [tlsSecret, KdfInputs.first, pskPremasterSecret, uint16Prefixed, hst]

theorem Tls12PrfInv.input (h : Tls12PrfInv P k alg inputs pos prf)
    (hsecret : k = .tls12Prf ∨ step ≠ .secret)
    (hin : psaTls12PrfInput env prf step data = .ok prf') :
    Tls12PrfInv P k alg (inputs.supply (some (step, .bytes data))) pos prf' := by
  cases step with
  | seed => exact h.setSeed hin
  | label => exact h.setLabel hin
  | secret =>
    have hk : k = .tls12Prf := hsecret.elim id fun hne => absurd rfl hne
    have hst := h.state
    refine h.setKey (o := prf.otherSecret) ?_ hin
    have hempty : inputs.bytes .secret = [] := by
      have hin : psaTls12PrfSetKey env prf data = .ok prf' := hin
      unfold psaTls12PrfSetKey at hin
      split at hin
      · cases hin
      · next hset =>
        cases hstate : prf.state <;> simp_all
    simp [tlsSecret, hk, KdfInputs.first, hempty]
  | _ => cases hin

theorem Tls12PrfInv.pskToMsInput (h : Tls12PrfInv P .tls12PskToMs alg inputs pos prf)
    (hin : psaTls12PrfPskToMsInput env prf step data = .ok prf') :
    Tls12PrfInv P .tls12PskToMs alg (inputs.supply (some (step, .bytes data))) pos prf' := by
  by_cases hsecret : step = .secret
  · subst hsecret
    exact h.pskToMsSetKey hin
  by_cases hother : step = .otherSecret
  · subst hother
    exact h.setOtherKey hin
  have hsame : psaTls12PrfPskToMsInput env prf step data
      = psaTls12PrfInput env prf step data := by
    cases step <;> first | rfl | contradiction
  exact h.input (.inr hsecret) (hsame ▸ hin)

theorem Pbkdf2Inv.setInputCost {value : Nat} (h : Pbkdf2Inv P k alg inputs pos pbkdf2)
    (hin : psaPbkdf2SetInputCost pbkdf2 step value = .ok pbkdf2') :
    Pbkdf2Inv P k alg (inputs.supply (some (step, .integer value))) pos pbkdf2' := by
  unfold psaPbkdf2SetInputCost at hin
  split at hin
  · cases hin
  split at hin
  · cases hin
  split at hin
  · cases hin
  split at hin
  · cases hin
  next _ hinit _ _ =>
    cases hin
    have hinit := not_not.mp hinit
    have hst := h.state
    simp only [hinit] at hst
    exact ⟨fun _ => h.started (by simp [hinit]), by simp [hst]⟩

theorem Pbkdf2Inv.setSalt (h : Pbkdf2Inv P k alg inputs pos pbkdf2)
    (hin : psaPbkdf2SetSalt env pbkdf2 data = .ok pbkdf2') :
    Pbkdf2Inv P k alg (inputs.supply (some (.salt, .bytes data))) pos pbkdf2' := by
  unfold psaPbkdf2SetSalt at hin
  split at hin
  · next hstate =>
    cases hcopy : copyInput env.calloc data with
    | error e =>
      rw [hcopy] at hin
      cases hin
    | ok piece =>
      rw [hcopy, copyInput_eq hcopy] at hin
      cases hin
      have hzero := h.started (by rcases hstate with he | he <;> simp [he])
      have hst := h.state
      refine ⟨fun _ => hzero, ?_⟩
      rcases hstate with he | he <;> simp only [he] at hst <;> simp [hst]
  · cases hin

theorem psaPbkdf2HmacSetPassword_hmac {hashAlg : PsaAlgorithm} {password : ByteString}
    (hin : psaPbkdf2HmacSetPassword P env hashAlg data = .ok password) :
    P.hmac hashAlg password = P.hmac hashAlg data := by
  funext m
  unfold psaPbkdf2HmacSetPassword at hin
  split at hin
  · next hlong =>
    split at hin
    · cases hin
      exact Hmac.hmac_hash_key hlong
        ((P.length_hash _ _).trans_le (psaHashLength_le_blockLength _)) m
    · cases hin
  · cases hin
    exact Hmac.hmac_pad (by omega) m

theorem psaPbkdf2CmacSetPassword_aesCmac {password : ByteString}
    (hin : psaPbkdf2CmacSetPassword P env data = .ok password) :
    P.aesCmac password = aesCmacPrf128 P.aesCmac data := by
  funext m
  unfold psaPbkdf2CmacSetPassword at hin
  rw [psaMacLength_aes_cmac] at hin
  split at hin
  · next hlen =>
    unfold macCompute at hin
    split at hin
    · cases hin
      rw [aesCmacPrf128, if_neg hlen]
    · cases hin
  · next hlen =>
    cases hin
    rw [aesCmacPrf128, if_pos (not_not.mp hlen)]

theorem Pbkdf2Inv.setPassword (h : Pbkdf2Inv P k alg inputs pos pbkdf2) (hk : k.Is alg = true)
    (hfam : k = .pbkdf2Hmac ∨ k = .pbkdf2AesCmacPrf128)
    (hin : psaPbkdf2SetPassword P env pbkdf2 alg data = .ok pbkdf2') :
    Pbkdf2Inv P k alg (inputs.supply (some (.password, .bytes data))) pos pbkdf2' := by
  unfold psaPbkdf2SetPassword at hin
  split at hin
  · cases hin
  next hset =>
    have hset := not_not.mp hset
    have hst := h.state
    simp only [hset] at hst
    obtain ⟨hcost, hsalt, hempty, hflat⟩ := hst
    have hzero := h.started (by simp [hset])
    have hkeyed : ∀ password, pbkdf2DriverPrf P k alg password
        = pbkdf2PasswordPrf P k alg (inputs.supply (some (.password, .bytes data))) →
        Pbkdf2Inv P k alg (inputs.supply (some (.password, .bytes data))) pos
          { pbkdf2 with password := password, state := .passwordSet } :=
      fun password hprf => ⟨fun _ => hzero, by simpa using hcost, by simpa using hsalt,
        by simpa using hflat, by simp [hempty], hprf⟩
    rcases hfam with rfl | rfl
    · have his : psaAlgIsPbkdf2Hmac alg = true := hk
      rw [if_pos his] at hin
      cases hpw : psaPbkdf2HmacSetPassword P env (psaAlgKdfGetHash alg) data with
      | error e =>
        rw [hpw] at hin
        cases hin
      | ok password =>
        rw [hpw] at hin
        cases hin
        apply hkeyed
        simpa [pbkdf2DriverPrf, pbkdf2PasswordPrf, KdfInputs.first, hempty]
          using psaPbkdf2HmacSetPassword_hmac hpw
    · have hnot : ¬ psaAlgIsPbkdf2Hmac alg = true := by
        have hother := Kdf.is_iff hk .pbkdf2Hmac
        simpa [Kdf.Is] using hother
      have his : alg = psaAlgPbkdf2AesCmacPrf128 := of_decide_eq_true hk
      rw [if_neg hnot, if_pos his] at hin
      cases hpw : psaPbkdf2CmacSetPassword P env data with
      | error e =>
        rw [hpw] at hin
        cases hin
      | ok password =>
        rw [hpw] at hin
        cases hin
        apply hkeyed
        simpa [pbkdf2DriverPrf, pbkdf2PasswordPrf, KdfInputs.first, hempty]
          using psaPbkdf2CmacSetPassword_aesCmac hpw

theorem Pbkdf2Inv.input (h : Pbkdf2Inv P k alg inputs pos pbkdf2) (hk : k.Is alg = true)
    (hfam : k = .pbkdf2Hmac ∨ k = .pbkdf2AesCmacPrf128)
    (hin : psaPbkdf2Input P env pbkdf2 alg step data = .ok pbkdf2') :
    Pbkdf2Inv P k alg (inputs.supply (some (step, .bytes data))) pos pbkdf2' := by
  cases step with
  | salt => exact h.setSalt hin
  | password => exact h.setPassword hk hfam hin
  | _ => cases hin

/-! ## The dispatch on the algorithm -/

theorem Kdf.dispatch (hk : k.Is alg = true) :
    psaAlgIsAnyHkdf alg
        = decide (k = .hkdf ∨ k = .hkdfExtract ∨ k = .hkdfExpand) ∧
      psaAlgIsTls12Prf alg = decide (k = .tls12Prf) ∧
      psaAlgIsTls12PskToMs alg = decide (k = .tls12PskToMs) ∧
      (alg = psaAlgTls12EcjpakeToPms ↔ k = .tls12EcjpakeToPms) ∧
      psaAlgIsPbkdf2 alg = decide (k = .pbkdf2Hmac ∨ k = .pbkdf2AesCmacPrf128) := by
  have htest : ∀ k' : Kdf, k'.Is alg = decide (k = k') := fun k' => by
    rw [Kdf.is_iff hk, decide_eq_decide]
    exact eq_comm
  refine ⟨?_, htest .tls12Prf, htest .tls12PskToMs,
    decide_eq_decide.mp (htest .tls12EcjpakeToPms), ?_⟩
  · rw [psaAlgIsAnyHkdf, show psaAlgIsHkdf alg = _ from htest .hkdf,
      show psaAlgIsHkdfExtract alg = _ from htest .hkdfExtract,
      show psaAlgIsHkdfExpand alg = _ from htest .hkdfExpand]
    simp [Bool.or_assoc]
  · rw [psaAlgIsPbkdf2, show psaAlgIsPbkdf2Hmac alg = _ from htest .pbkdf2Hmac,
      show decide (alg = psaAlgPbkdf2AesCmacPrf128) = _ from htest .pbkdf2AesCmacPrf128]
    simp

theorem except_map_eq_ok {ε α β : Type*} {f : α → β} {x : Except ε α} {b : β}
    (h : x.map f = .ok b) : ∃ a, x = .ok a ∧ f a = b := by
  cases x with
  | error e => cases h
  | ok a => exact ⟨a, rfl, Except.ok.inj h⟩

theorem KdfInv.input {ctx ctx' : PsaKeyDerivationContext}
    (h : KdfInv P k alg inputs pos ctx) (hk : k.Is alg = true)
    (hin : psaKeyDerivationInputContext P env ctx alg step data = some (.ok ctx')) :
    KdfInv P k alg (inputs.supply (some (step, .bytes data))) pos ctx' := by
  obtain ⟨hhkdf, hprf, hpsk, hecjpake, hpbkdf2⟩ := Kdf.dispatch hk
  unfold psaKeyDerivationInputContext at hin
  simp only [hhkdf, hprf, hpsk, hecjpake, hpbkdf2] at hin
  cases k with
  | hkdf | hkdfExtract | hkdfExpand =>
    obtain ⟨hkdf', hstep, rfl⟩ := except_map_eq_ok (Option.some.inj hin)
    exact HkdfInv.input h hk (by simp) hstep
  | tls12Prf =>
    obtain ⟨prf', hstep, rfl⟩ := except_map_eq_ok (Option.some.inj hin)
    exact Tls12PrfInv.input h (.inl rfl) hstep
  | tls12PskToMs =>
    obtain ⟨prf', hstep, rfl⟩ := except_map_eq_ok (Option.some.inj hin)
    exact Tls12PrfInv.pskToMsInput h hstep
  | tls12EcjpakeToPms => trivial
  | pbkdf2Hmac | pbkdf2AesCmacPrf128 =>
    obtain ⟨pbkdf2', hstep, rfl⟩ := except_map_eq_ok (Option.some.inj hin)
    exact Pbkdf2Inv.input h hk (by simp) hstep

end Input

end TfPsaCrypto
