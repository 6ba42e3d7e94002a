import TfPsaCrypto.KeyDerivation.Invariant
import TfPsaCrypto.KeyDerivation.Output

/-!
# The read functions produce the stream

Each read function hands out the next segment of the standard's stream unless a computation fails
or the block counter ends.
-/

namespace TfPsaCrypto

open Bytes (ByteString)
open BlockStream (BlockReader segment)

variable {P : KdfPlatform} {k : Kdf} {alg : PsaAlgorithm} {inputs : KdfInputs}
  {pos n : Nat} {env : OutputEnv}

def Kdf.blockLimit : Kdf → Nat
  | .hkdf | .hkdfExpand | .tls12Prf | .tls12PskToMs => 255
  | .hkdfExtract | .tls12EcjpakeToPms => 1
  | .pbkdf2Hmac | .pbkdf2AesCmacPrf128 => 2 ^ 32 - 1

def OutputEnv.Fault (env : OutputEnv) (status : PsaStatus) : Prop :=
  status ≠ .success ∧ ((∃ block i, env.mac block i = status) ∨ env.hash = status)

theorem macCompute_ok {fault : PsaStatus} {mac out : ByteString}
    (h : macCompute fault mac = .ok out) : out = mac := by
  unfold macCompute at h
  split at h
  · exact (Except.ok.inj h).symm
  · cases h

theorem macCompute_error {block i : Nat} {mac : ByteString} {e : PsaStatus}
    (h : macCompute (env.mac block i) mac = .error e) : env.Fault e := by
  unfold macCompute at h
  split at h
  · cases h
  · next hne =>
    cases h
    exact ⟨hne, .inl ⟨block, i, rfl⟩⟩

/-- A read gives the next segment and a context after it, or an error for which `E` holds. -/
def ReadsSegment {γ : Type*} (P : KdfPlatform) (k : Kdf) (alg : PsaAlgorithm)
    (inputs : KdfInputs) (pos n : Nat) (I : γ → Nat → Prop) (E : PsaStatus → Prop)
    (r : Except PsaStatus (γ × ByteString)) : Prop :=
  (∃ c, r = .ok (c, segment (k.blockSize alg) (kdfBlock P k alg inputs) pos n) ∧
    I c (pos + n)) ∨ ∃ e, r = .error e ∧ E e

/-- A positioned reader reads the stream, up to the errors of generating a block
that the request goes beyond. -/
theorem readsSegment_of_positioned {γ : Type*} {r : BlockReader γ PsaStatus UInt8}
    {I : γ → Nat → Prop} {E : PsaStatus → Prop} {limit : Nat} {c : γ}
    (exhausted : PsaStatus) (hpos : r.Positioned (kdfBlock P k alg inputs) limit I)
    (hsz : r.size = k.blockSize alg) (hI : I c pos) (hlimit : pos + n ≤ limit)
    (hE : ∀ c p e, I c p → r.used c = r.size → p < pos + n → r.next c = .error e → E e) :
    ReadsSegment P k alg inputs pos n I E (r.read exhausted n c n) := by
  rcases BlockReader.read_spec hpos hI hlimit (Nat.le_add_right n _) with
    ⟨c', hok, hI'⟩ | ⟨c₁, p₁, e, hI₁, hend, _, hlt, hfail, herr⟩
  · exact .inl ⟨c', hsz ▸ hok, hI'⟩
  · exact .inr ⟨e, herr, hE c₁ p₁ e hI₁ hend hlt hfail⟩

theorem ReadsSegment.mono {γ : Type*} {I I' : γ → Nat → Prop} {E E' : PsaStatus → Prop}
    {r : Except PsaStatus (γ × ByteString)} (h : ReadsSegment P k alg inputs pos n I E r)
    (hI : ∀ c p, I c p → I' c p) (hE : ∀ e, E e → E' e) :
    ReadsSegment P k alg inputs pos n I' E' r := by
  rcases h with ⟨c, hok, hc⟩ | ⟨e, herr, he⟩
  · exact .inl ⟨c, hok, hI _ _ hc⟩
  · exact .inr ⟨e, herr, hE e he⟩

/-! ## HKDF -/

section Hkdf

variable {hkdf : PsaHkdfKeyDerivation}

theorem HkdfInv.output (h : HkdfInv P k alg inputs pos hkdf)
    (hout : hkdf.state = .output) :
    HkdfKeyed P k alg inputs hkdf ∧ HkdfReading P k alg inputs pos hkdf := by
  have hst := h.state
  simpa only [hout] using hst

theorem HkdfInv.of_output (hset : hkdf.infoSet = true → inputs.bytes .info = [hkdf.info])
    (hunset : hkdf.infoSet = false → inputs.bytes .info = [])
    (hout : hkdf.state = .output) (hkeyed : HkdfKeyed P k alg inputs hkdf)
    (hreading : HkdfReading P k alg inputs pos hkdf) :
    HkdfInv P k alg inputs pos hkdf := by
  refine ⟨hset, hunset, ?_⟩
  simp only [hout]
  exact ⟨hkeyed, hreading⟩

theorem HkdfInv.complete_iff (h : HkdfInv P k alg inputs pos hkdf)
    (hfam : k = .hkdf ∨ k = .hkdfExtract ∨ k = .hkdfExpand) :
    inputs.Complete k ↔ ¬ (hkdf.state = .init ∨ hkdf.state = .started ∨
      (¬ hkdf.infoSet ∧ ¬ k = .hkdfExtract)) := by
  have hinfo : (inputs.bytes .info).length = 1 ↔ hkdf.infoSet = true := by
    cases hset : hkdf.infoSet with
    | false => simp [h.info_unset hset]
    | true => simp [h.info_set hset]
  have hst := h.state
  have hsalt : ∀ {l : List ByteString}, l ≠ [] → l.length ≤ 1 → l.length = 1 := by
    intro l hne hle
    have := List.length_pos_of_ne_nil hne
    omega
  cases hstate : hkdf.state with
  | init | started =>
    simp only [hstate] at hst
    rcases hfam with rfl | rfl | rfl <;> simp [KdfInputs.Complete, hst]
  | keyed | output =>
    simp only [hstate] at hst
    obtain ⟨⟨hsecret, hle, hne, _⟩, _⟩ := hst
    rcases hfam with rfl | rfl | rfl <;> simp_all [KdfInputs.Complete]

variable (env n) in
theorem HkdfInv.read_incomplete (h : HkdfInv P k alg inputs pos hkdf)
    (hk : k.Is alg = true) (hfam : k = .hkdf ∨ k = .hkdfExtract ∨ k = .hkdfExpand)
    (hincomplete : ¬ inputs.Complete k) :
    psaKeyDerivationHkdfRead P env hkdf alg n = .error .errorBadState := by
  have hextract : psaAlgIsHkdfExtract alg = decide (Kdf.hkdfExtract = k) :=
    Kdf.is_iff hk .hkdfExtract
  have hready := not_not.mp (mt (h.complete_iff hfam).mpr hincomplete)
  rw [psaKeyDerivationHkdfRead, hextract, if_pos]
  refine hready.imp_right fun hrest => hrest.imp_right fun ⟨hset, hx⟩ => ⟨hset, ?_⟩
  simpa using Ne.symm hx

theorem HkdfInv.start (h : HkdfInv P k alg inputs pos hkdf)
    (hfam : k = .hkdf ∨ k = .hkdfExtract ∨ k = .hkdfExpand)
    (hcomplete : inputs.Complete k) :
    HkdfInv P k alg inputs pos { hkdf with state := .output } := by
  have hready := (h.complete_iff hfam).mp hcomplete
  have hst := h.state
  refine ⟨h.info_set, h.info_unset, ?_⟩
  cases hstate : hkdf.state with
  | init | started => exact absurd hstate (by simp_all)
  | output => simpa [hstate, HkdfKeyed, HkdfReading] using hst
  | keyed =>
    simp only [hstate] at hst
    obtain ⟨hkeyed, rfl, hzero, hblock⟩ := hst
    refine ⟨hkeyed, ?_⟩
    by_cases hx : k = .hkdfExtract
    · subst hx
      simp only [if_true] at hblock
      exact ⟨by simp [hblock], by simp [hblock, hzero, kdfBlock, hkeyed.2.2.2]⟩
    · have hset : hkdf.infoSet = true := by simp_all
      simp only [hx, if_false] at hblock
      refine ⟨hblock.le, ?_⟩
      simp [hx, hset, hzero, hblock]

theorem hkdfNextBlock_ok {hkdf' : PsaHkdfKeyDerivation}
    (h : HkdfInv P k alg inputs pos hkdf) (hk : k.Is alg = true)
    (hfam : k = .hkdf ∨ k = .hkdfExtract ∨ k = .hkdfExpand)
    (hout : hkdf.state = .output) (hend : hkdf.offsetInBlock = k.blockSize alg)
    (hnext : hkdfNextBlock P env alg hkdf = .ok hkdf') :
    HkdfInv P k alg inputs pos hkdf' ∧ hkdf'.state = .output ∧ hkdf'.offsetInBlock = 0 := by
  have hextract : psaAlgIsHkdfExtract alg = decide (Kdf.hkdfExtract = k) :=
    Kdf.is_iff hk .hkdfExtract
  obtain ⟨hkeyed, hle, hreading⟩ := h.output hout
  unfold hkdfNextBlock at hnext
  rw [hextract] at hnext
  by_cases hx : k = .hkdfExtract
  · simp [hx] at hreading hnext
    simp [hreading.1] at hnext
  have hx' : Kdf.hkdfExtract ≠ k := Ne.symm hx
  simp only [hx, if_false] at hreading
  obtain ⟨hset, hlt, hpos, hblock⟩ := hreading
  simp only [hx', decide_false, Bool.false_eq_true, if_false] at hnext
  split at hnext
  · cases hnext
  next hne =>
    have hmod : (hkdf.blockNumber + 1) % 256 = hkdf.blockNumber + 1 := Nat.mod_eq_of_lt (by omega)
    rw [hmod] at hnext
    cases hmac : macCompute (env.mac (hkdf.blockNumber + 1) 0)
        (P.hmac (psaAlgKdfGetHash alg) hkdf.prk
          ((if hkdf.blockNumber + 1 ≠ 1 then hkdf.outputBlock else [])
            ++ hkdf.info ++ Bytes.toBE 1 (hkdf.blockNumber + 1))) with
    | error e =>
      rw [hmac] at hnext
      cases hnext
    | ok mac =>
      rw [hmac] at hnext
      cases hnext
      refine ⟨.of_output h.info_set h.info_unset hout hkeyed ⟨Nat.zero_le _, ?_⟩, hout, rfl⟩
      simp only [hx, if_false]
      refine ⟨hset, by omega, by rw [Nat.succ_mul]; omega, ?_⟩
      -- T(b + 1) = HMAC(PRK, T(b) | info | b + 1)
      intro i hi
      obtain rfl : i = hkdf.blockNumber := by omega
      have hinfo : inputs.first .info = hkdf.info := by
        rw [KdfInputs.first, h.info_set hset]
        rfl
      have hT : kdfBlock P k alg inputs hkdf.blockNumber
          = hkdfT (P.hmac (psaAlgKdfGetHash alg) (hkdfPrk P k alg inputs))
            (inputs.first .info) (hkdf.blockNumber + 1) := by
        rcases hfam with rfl | rfl | rfl
        · rfl
        · exact absurd rfl hx
        · rfl
      have hprevious : (if hkdf.blockNumber + 1 ≠ 1 then hkdf.outputBlock else [])
          = hkdfT (P.hmac (psaAlgKdfGetHash alg) (hkdfPrk P k alg inputs))
            (inputs.first .info) hkdf.blockNumber := by
        cases hb : hkdf.blockNumber with
        | zero => rfl
        | succ j =>
          rw [if_pos (by omega), hblock j hb]
          rcases hfam with rfl | rfl | rfl
          · rfl
          · exact absurd rfl hx
          · rfl
      rw [macCompute_ok hmac, hT, hkdfT, hprevious, hkeyed.2.2.2, hinfo]

theorem hkdfNextBlock_error {e : PsaStatus} (hk : k.Is alg = true)
    (hnext : hkdfNextBlock P env alg hkdf = .error e) :
    env.Fault e ∨ (e = .errorBadState ∧
      hkdf.blockNumber = if k = .hkdfExtract then 0 else 0xff) := by
  have hextract : psaAlgIsHkdfExtract alg = decide (Kdf.hkdfExtract = k) :=
    Kdf.is_iff hk .hkdfExtract
  have hlast : (if psaAlgIsHkdfExtract alg then 0 else 0xff)
      = if k = .hkdfExtract then 0 else 0xff := by
    simp [hextract, eq_comm]
  unfold hkdfNextBlock at hnext
  dsimp only at hnext
  rw [hlast] at hnext
  by_cases hb : hkdf.blockNumber = if k = .hkdfExtract then 0 else 0xff
  · rw [if_pos hb] at hnext
    cases hnext
    exact .inr ⟨rfl, hb⟩
  rw [if_neg hb] at hnext
  generalize hmac : macCompute _ _ = r at hnext
  cases r with
  | error e' =>
    cases hnext
    exact .inl (macCompute_error hmac)
  | ok mac => cases hnext

theorem hkdfReader_positioned (hk : k.Is alg = true)
    (hfam : k = .hkdf ∨ k = .hkdfExtract ∨ k = .hkdfExpand)
    (hsize : 0 < k.blockSize alg) (limit : Nat) :
    (hkdfReader P env alg).Positioned (kdfBlock P k alg inputs) limit
      (fun c p => HkdfInv P k alg inputs p c ∧ c.state = .output) := by
  have hsz : (hkdfReader P env alg).size = k.blockSize alg := by
    rcases hfam with rfl | rfl | rfl <;> rfl
  have hlen : ∀ i, (kdfBlock P k alg inputs i).length = k.blockSize alg := fun i =>
    length_kdfBlock P k alg inputs i (by rcases hfam with rfl | rfl | rfl <;> simp)
  constructor
  · rwa [hsz]
  · rintro c p n ⟨h, hout⟩ hn
    rw [hsz] at hn ⊢
    obtain ⟨hkeyed, hle, hreading⟩ := h.output hout
    have hn : n ≤ k.blockSize alg - c.offsetInBlock := hn
    have hmoved : HkdfReading P k alg inputs (p + n)
        { c with offsetInBlock := c.offsetInBlock + n } := by
      refine ⟨(by omega : c.offsetInBlock + n ≤ k.blockSize alg), ?_⟩
      by_cases hx : k = .hkdfExtract
      · simp only [hx, if_true] at hreading ⊢
        exact ⟨hreading.1, by omega, hreading.2.2⟩
      · simp only [hx, if_false] at hreading ⊢
        exact ⟨hreading.1, hreading.2.1, by omega, hreading.2.2.2⟩
    exact ⟨⟨.of_output h.info_set h.info_unset hout hkeyed hmoved, hout⟩, id⟩
  · rintro c p n ⟨h, hout⟩ hn
    rw [hsz] at hn ⊢
    obtain ⟨_, hle, hreading⟩ := h.output hout
    have hn : n ≤ k.blockSize alg - c.offsetInBlock := hn
    show (c.outputBlock.drop c.offsetInBlock).take n = _
    by_cases hx : k = .hkdfExtract
    · simp only [hx, if_true] at hreading
      obtain ⟨_, rfl, hblock⟩ := hreading
      have hseg := BlockStream.segment_of_block (o := c.offsetInBlock) (n := n) (hlen 0) (by omega)
      rw [Nat.zero_mul, Nat.zero_add, hx] at hseg
      rw [hx, hseg, hblock]
    · simp only [hx, if_false] at hreading
      obtain ⟨_, _, hpos, hblock⟩ := hreading
      cases hb : c.blockNumber with
      | zero =>
        -- block 0 is used up from the beginning
        rw [hb, Nat.zero_mul] at hpos
        obtain rfl : n = 0 := by omega
        simp
      | succ i =>
        have hp : p = i * k.blockSize alg + c.offsetInBlock := by
          rw [hb, Nat.succ_mul] at hpos
          omega
        rw [hp, hblock i hb, BlockStream.segment_of_block (hlen i) (by omega)]
  · rintro c p ⟨h, hout⟩
    rw [hsz]
    exact (h.output hout).2.1
  · rintro c p c' ⟨h, hout⟩ hend _ hnext
    rw [hsz] at hend
    obtain ⟨hinv, hout', hzero⟩ := hkdfNextBlock_ok h hk hfam hout hend hnext
    exact ⟨⟨hinv, hout'⟩, hzero⟩

variable (env) in
theorem HkdfInv.read (h : HkdfInv P k alg inputs pos hkdf) (hk : k.Is alg = true)
    (hfam : k = .hkdf ∨ k = .hkdfExtract ∨ k = .hkdfExpand)
    (hsize : 0 < k.blockSize alg) (hcomplete : inputs.Complete k)
    (hlimit : pos + n ≤ k.blockLimit * k.blockSize alg) :
    ReadsSegment P k alg inputs pos n (fun c p => HkdfInv P k alg inputs p c) env.Fault
      (psaKeyDerivationHkdfRead P env hkdf alg n) := by
  have hextract : psaAlgIsHkdfExtract alg = decide (Kdf.hkdfExtract = k) :=
    Kdf.is_iff hk .hkdfExtract
  have hready := (h.complete_iff hfam).mp hcomplete
  have hsz : (hkdfReader P env alg).size = k.blockSize alg := by
    rcases hfam with rfl | rfl | rfl <;> rfl
  have hread : psaKeyDerivationHkdfRead P env hkdf alg n
      = (hkdfReader P env alg).read .errorCorruptionDetected n
        { hkdf with state := .output } n := by
    rw [psaKeyDerivationHkdfRead, hextract, if_neg]
    rintro (hinit | hstarted | ⟨hset, hx⟩)
    · exact hready (.inl hinit)
    · exact hready (.inr (.inl hstarted))
    · exact hready (.inr (.inr ⟨hset, fun he => hx (by simp [he])⟩))
  rw [hread]
  refine (readsSegment_of_positioned _ (hkdfReader_positioned hk hfam hsize _) hsz
    ⟨h.start hfam hcomplete, rfl⟩ hlimit ?_).mono (fun _ _ hI => hI.1) fun _ => id
  rintro c p e ⟨hinv, hout⟩ hend hlt hfail
  rw [hsz] at hend
  refine (hkdfNextBlock_error hk hfail).resolve_right fun ⟨_, hlast⟩ => ?_
  -- the last block ends at the limit
  obtain ⟨_, _, hreading⟩ := hinv.output hout
  have hend : c.offsetInBlock = k.blockSize alg := hend
  by_cases hx : k = .hkdfExtract
  · subst hx
    have hlim : Kdf.hkdfExtract.blockLimit = 1 := rfl
    rw [hlim, Nat.one_mul] at hlimit
    rw [if_pos rfl] at hreading
    omega
  · simp only [hx, if_false] at hreading hlast
    have hlim : k.blockLimit = 255 := by
      rcases hfam with rfl | rfl | rfl
      · rfl
      · exact absurd rfl hx
      · rfl
    rw [hlim] at hlimit
    rw [hlast] at hreading
    omega

end Hkdf

/-! ## TLS 1.2 PRF and PSK-to-MS -/

section Tls12Prf

variable {prf : PsaTls12PrfKeyDerivation}

theorem Tls12PrfInv.complete_iff (h : Tls12PrfInv P k alg inputs pos prf)
    (hfam : k = .tls12Prf ∨ k = .tls12PskToMs) :
    inputs.Complete k ↔ prf.state = .labelSet ∨ prf.state = .output := by
  have hst := h.state
  have hother := h.other_le
  cases hstate : prf.state <;> simp only [hstate] at hst <;>
    rcases hfam with rfl | rfl <;> simp_all [KdfInputs.Complete]

variable (env n) in
theorem Tls12PrfInv.read_incomplete (h : Tls12PrfInv P k alg inputs pos prf)
    (hfam : k = .tls12Prf ∨ k = .tls12PskToMs) (hincomplete : ¬ inputs.Complete k) :
    psaKeyDerivationTls12PrfRead P env prf alg n = .error .errorBadState := by
  rw [psaKeyDerivationTls12PrfRead, if_neg (mt (h.complete_iff hfam).mpr hincomplete)]

theorem Tls12PrfInv.start (h : Tls12PrfInv P k alg inputs pos prf)
    (hready : prf.state = .labelSet ∨ prf.state = .output) :
    Tls12PrfInv P k alg inputs pos { prf with state := .output } := by
  have hst := h.state
  refine ⟨h.reading, fun hne => absurd rfl hne, fun _ => by simp, h.other_le, ?_⟩
  rcases hready with he | he <;> simpa [he] using hst

theorem tls12PrfGenerateNextBlock_ok {prf' : PsaTls12PrfKeyDerivation}
    (h : Tls12PrfInv P k alg inputs pos prf)
    (hfam : k = .tls12Prf ∨ k = .tls12PskToMs)
    (hout : prf.state = .output) (hend : prf.leftInBlock = 0)
    (hnext : psaKeyDerivationTls12PrfGenerateNextBlock P env alg prf = .ok prf') :
    Tls12PrfInv P k alg inputs pos prf' ∧ prf'.state = .output ∧
      prf'.leftInBlock = k.blockSize alg := by
  have hsz : psaHashLength (psaAlgKdfGetHash alg) = k.blockSize alg := by
    rcases hfam with rfl | rfl <;> rfl
  have hst := h.state
  simp only [hout] at hst
  obtain ⟨hseed, hone, hsecret, hlabel⟩ := hst
  obtain ⟨hle, hlt, hpos, hblock⟩ := h.reading
  have hseed' : inputs.first .label ++ inputs.first .seed = prf.label ++ prf.seed := by
    rw [KdfInputs.first, KdfInputs.first, hseed, hlabel]
    rfl
  unfold psaKeyDerivationTls12PrfGenerateNextBlock at hnext
  dsimp only at hnext
  by_cases hlast : prf.blockNumber = 0xff
  · rw [if_pos hlast] at hnext
    cases hnext
  rw [if_neg hlast, Nat.mod_eq_of_lt (by omega : prf.blockNumber + 1 < 256)] at hnext
  generalize hai : macCompute (env.mac (prf.blockNumber + 1) 0) _ = r at hnext
  cases r with
  | error e => cases hnext
  | ok ai =>
    simp only [bind, Except.bind] at hnext
    generalize hmac : macCompute (env.mac (prf.blockNumber + 1) 1) _ = r' at hnext
    cases r' with
    | error e => cases hnext
    | ok outputBlock =>
      cases hnext
      -- A(b + 1) = HMAC(secret, A(b))
      have hA : ai = tlsA (P.hmac (psaAlgKdfGetHash alg) (tlsSecret k inputs))
          (inputs.first .label ++ inputs.first .seed) (prf.blockNumber + 1) := by
        rw [macCompute_ok hai, hsecret, tlsA]
        cases hb : prf.blockNumber with
        | zero => rw [if_pos rfl, tlsA, hseed']
        | succ i => rw [if_neg (by omega), (hblock i hb).2]
      have hnewBlock : outputBlock = kdfBlock P k alg inputs prf.blockNumber := by
        have hP : kdfBlock P k alg inputs prf.blockNumber
            = tlsPHash (P.hmac (psaAlgKdfGetHash alg) (tlsSecret k inputs))
              (inputs.first .label ++ inputs.first .seed) (prf.blockNumber + 1) := by
          rcases hfam with rfl | rfl <;> rfl
        rw [hP, macCompute_ok hmac, hsecret, tlsPHash, ← hA, hseed', List.append_assoc]
      refine ⟨⟨⟨hsz.le, by show prf.blockNumber + 1 ≤ 0xff; omega, ?_, ?_⟩,
        fun hne => absurd hout hne, fun _ => by simp [hout], h.other_le, ?_⟩, hout, hsz⟩
      · show pos + psaHashLength (psaAlgKdfGetHash alg) = _
        rw [hsz, Nat.succ_mul]
        omega
      · intro i hi
        obtain rfl : i = prf.blockNumber := by
          have hi : prf.blockNumber + 1 = i + 1 := hi
          omega
        exact ⟨hnewBlock, hA⟩
      · simp only [hout]
        exact ⟨hseed, hone, hsecret, hlabel⟩

theorem tls12PrfGenerateNextBlock_error {e : PsaStatus}
    (hnext : psaKeyDerivationTls12PrfGenerateNextBlock P env alg prf = .error e) :
    env.Fault e ∨ (e = .errorCorruptionDetected ∧ prf.blockNumber = 0xff) := by
  unfold psaKeyDerivationTls12PrfGenerateNextBlock at hnext
  dsimp only at hnext
  by_cases hlast : prf.blockNumber = 0xff
  · rw [if_pos hlast] at hnext
    cases hnext
    exact .inr ⟨rfl, hlast⟩
  rw [if_neg hlast] at hnext
  left
  generalize hai : macCompute _ _ = r at hnext
  cases r with
  | error e' =>
    cases hnext
    exact macCompute_error hai
  | ok ai =>
    simp only [bind, Except.bind] at hnext
    generalize hmac : macCompute _ _ = r' at hnext
    cases r' with
    | error e' =>
      cases hnext
      exact macCompute_error hmac
    | ok outputBlock => cases hnext

theorem tls12PrfReader_positioned (hfam : k = .tls12Prf ∨ k = .tls12PskToMs)
    (hsize : 0 < k.blockSize alg) (limit : Nat) :
    (tls12PrfReader P env alg).Positioned (kdfBlock P k alg inputs) limit
      (fun c p => Tls12PrfInv P k alg inputs p c ∧ c.state = .output) := by
  have hsz : (tls12PrfReader P env alg).size = k.blockSize alg := by
    rcases hfam with rfl | rfl <;> rfl
  have hused : ∀ c, (tls12PrfReader P env alg).used c
      = k.blockSize alg - c.leftInBlock := fun c => by
    rw [← hsz]
    rfl
  have hlen : ∀ i, (kdfBlock P k alg inputs i).length = k.blockSize alg := fun i =>
    length_kdfBlock P k alg inputs i (by rcases hfam with rfl | rfl <;> simp)
  constructor
  · rwa [hsz]
  · rintro c p n ⟨h, hout⟩ hn
    rw [hsz, hused] at hn
    rw [hsz, hused, hused]
    obtain ⟨hle, hlt, hpos, hblock⟩ := h.reading
    have hmoved : Tls12PrfReading P k alg inputs (p + n)
        { c with leftInBlock := c.leftInBlock - n } :=
      ⟨(Nat.sub_le _ _).trans hle, hlt,
        (by omega : p + n + (c.leftInBlock - n) = c.blockNumber * k.blockSize alg), hblock⟩
    refine ⟨⟨⟨hmoved, h.started, h.other, h.other_le, h.state⟩, hout⟩, fun hend => ?_⟩
    show k.blockSize alg - (c.leftInBlock - n) = k.blockSize alg
    omega
  · rintro c p n ⟨h, hout⟩ hn
    rw [hsz, hused] at hn
    rw [hsz, hused]
    obtain ⟨hle, hlt, hpos, hblock⟩ := h.reading
    show (c.outputBlock.drop _).take n = _
    cases hb : c.blockNumber with
    | zero =>
      -- there is no block yet, and nothing is left of it
      rw [hb, Nat.zero_mul] at hpos
      obtain rfl : n = 0 := by omega
      simp
    | succ i =>
      have hp : p = i * k.blockSize alg + (k.blockSize alg - c.leftInBlock) := by
        rw [hb, Nat.succ_mul] at hpos
        omega
      rw [hp, (hblock i hb).1, BlockStream.segment_of_block (hlen i) (by omega)]
  · rintro c p ⟨h, _⟩
    rw [hsz, hused]
    exact Nat.sub_le _ _
  · rintro c p c' ⟨h, hout⟩ hend _ hnext
    rw [hsz, hused] at hend
    obtain ⟨hinv, hout', hleft⟩ := tls12PrfGenerateNextBlock_ok h hfam hout (by omega) hnext
    refine ⟨⟨hinv, hout'⟩, ?_⟩
    rw [hused, hleft, Nat.sub_self]

variable (env n) in
theorem Tls12PrfInv.read (h : Tls12PrfInv P k alg inputs pos prf)
    (hfam : k = .tls12Prf ∨ k = .tls12PskToMs) (hsize : 0 < k.blockSize alg)
    (hcomplete : inputs.Complete k) :
    ReadsSegment P k alg inputs pos n (fun c p => Tls12PrfInv P k alg inputs p c)
      (fun e => env.Fault e ∨ (e = .errorCorruptionDetected ∧
        k.blockLimit * k.blockSize alg < pos + n))
      (psaKeyDerivationTls12PrfRead P env prf alg n) := by
  have hready := (h.complete_iff hfam).mp hcomplete
  have hsz : (tls12PrfReader P env alg).size = k.blockSize alg := by
    rcases hfam with rfl | rfl <;> rfl
  have hlim : k.blockLimit = 255 := by
    rcases hfam with rfl | rfl <;> rfl
  rw [psaKeyDerivationTls12PrfRead, if_pos hready]
  refine (readsSegment_of_positioned _ (tls12PrfReader_positioned hfam hsize _) hsz
    ⟨h.start hready, rfl⟩ (Nat.le_refl _) ?_).mono (fun _ _ hI => hI.1) fun _ => id
  rintro c p e ⟨hinv, _⟩ hend hlt hfail
  refine (tls12PrfGenerateNextBlock_error hfail).imp_right fun ⟨he, hlast⟩ => ⟨he, ?_⟩
  obtain ⟨hle, _, hpos, _⟩ := hinv.reading
  have hend : psaHashLength (psaAlgKdfGetHash alg) - c.leftInBlock
      = psaHashLength (psaAlgKdfGetHash alg) := hend
  have hsz : psaHashLength (psaAlgKdfGetHash alg) = k.blockSize alg := hsz
  rw [hlast] at hpos
  rw [hlim]
  omega

end Tls12Prf

/-! ## PBKDF2 -/

section Pbkdf2

variable {pbkdf2 : PsaPbkdf2KeyDerivation}

variable (env) in
theorem pbkdf2Iterate_spec {prf : ByteString → ByteString} {salt u acc : ByteString}
    (block m i : Nat) {j : Nat} (hu : u = pbkdf2U prf salt block j)
    (hacc : acc = pbkdf2Xor prf salt block j) :
    pbkdf2Iterate prf (env.mac block) m i u acc
        = .ok (pbkdf2Xor prf salt block (j + m)) ∨
      ∃ e, env.Fault e ∧ pbkdf2Iterate prf (env.mac block) m i u acc = .error e := by
  induction m generalizing i j u acc with
  | zero => exact .inl (congrArg Except.ok hacc)
  | succ m ih =>
    have hstep : pbkdf2Iterate prf (env.mac block) (m + 1) i u acc
        = (macCompute (env.mac block i) (prf u)).bind
          fun u => pbkdf2Iterate prf (env.mac block) m (i + 1) u (Bytes.xor acc u) := rfl
    rw [hstep]
    cases hmac : macCompute (env.mac block i) (prf u) with
    | error e => exact .inr ⟨e, macCompute_error hmac, rfl⟩
    | ok u' =>
      have hu' : u' = pbkdf2U prf salt block (j + 1) := by
        rw [macCompute_ok hmac, hu, pbkdf2U]
      have hacc' : Bytes.xor acc u' = pbkdf2Xor prf salt block (j + 1) := by
        rw [hacc, hu', pbkdf2Xor]
      have hnext := ih (i + 1) hu' hacc'
      rwa [Nat.add_assoc, Nat.add_comm 1 m] at hnext

variable (env) in
theorem pbkdf2GenerateBlock_spec (h : Pbkdf2Keyed P k alg inputs pbkdf2)
    (hfam : k = .pbkdf2Hmac ∨ k = .pbkdf2AesCmacPrf128)
    (hlt : pbkdf2.blockNumber + 1 < 2 ^ 32) :
    psaKeyDerivationPbkdf2GenerateBlock env (pbkdf2DriverPrf P k alg) pbkdf2
        = .ok { pbkdf2 with
          bytesUsed := 0, blockNumber := pbkdf2.blockNumber + 1,
          outputBlock := kdfBlock P k alg inputs pbkdf2.blockNumber } ∨
      ∃ e, env.Fault e ∧ psaKeyDerivationPbkdf2GenerateBlock env
        (pbkdf2DriverPrf P k alg) pbkdf2 = .error e := by
  obtain ⟨hcost, _, hsalt, _, hprf⟩ := h
  have hblock : kdfBlock P k alg inputs pbkdf2.blockNumber
      = pbkdf2Xor (pbkdf2PasswordPrf P k alg inputs) pbkdf2.salt
        (pbkdf2.blockNumber + 1) (0 + (pbkdf2.inputCost - 1)) := by
    rw [Nat.zero_add, hsalt]
    rcases hfam with rfl | rfl <;> simp [kdfBlock, pbkdf2F, hcost]
  have hgenerate : psaKeyDerivationPbkdf2GenerateBlock env (pbkdf2DriverPrf P k alg) pbkdf2
      = (macCompute (env.mac (pbkdf2.blockNumber + 1) 0)
          (pbkdf2PasswordPrf P k alg inputs
            (pbkdf2.salt ++ Bytes.toBE 4 (pbkdf2.blockNumber + 1)))).bind fun u =>
        (pbkdf2Iterate (pbkdf2PasswordPrf P k alg inputs)
          (env.mac (pbkdf2.blockNumber + 1)) (pbkdf2.inputCost - 1) 1 u u).bind
          fun block => .ok { pbkdf2 with
            bytesUsed := 0, blockNumber := pbkdf2.blockNumber + 1,
            outputBlock := block } := by
    unfold psaKeyDerivationPbkdf2GenerateBlock
    rw [Nat.mod_eq_of_lt hlt, hprf]
    rfl
  rw [hgenerate]
  cases hmac : macCompute (env.mac (pbkdf2.blockNumber + 1) 0)
      (pbkdf2PasswordPrf P k alg inputs (pbkdf2.salt ++ Bytes.toBE 4 (pbkdf2.blockNumber + 1))) with
  | error e => exact .inr ⟨e, macCompute_error hmac, rfl⟩
  | ok u =>
    have hu : u = pbkdf2U (pbkdf2PasswordPrf P k alg inputs) pbkdf2.salt
        (pbkdf2.blockNumber + 1) 0 := macCompute_ok hmac
    rcases pbkdf2Iterate_spec env (pbkdf2.blockNumber + 1) (pbkdf2.inputCost - 1) 1
        hu hu with hok | ⟨e, he, herr⟩
    · left
      rw [hblock, Except.bind, hok]
      rfl
    · right
      refine ⟨e, he, ?_⟩
      rw [Except.bind, herr]
      rfl

theorem Pbkdf2Inv.complete_iff (h : Pbkdf2Inv P k alg inputs pos pbkdf2)
    (hfam : k = .pbkdf2Hmac ∨ k = .pbkdf2AesCmacPrf128) :
    inputs.Complete k ↔ pbkdf2.state = .passwordSet ∨ pbkdf2.state = .output := by
  have hst := h.state
  cases hstate : pbkdf2.state <;> simp only [hstate] at hst <;>
    rcases hfam with rfl | rfl <;> simp_all [KdfInputs.Complete, Pbkdf2Keyed]

theorem Pbkdf2Inv.output (h : Pbkdf2Inv P k alg inputs pos pbkdf2)
    (hout : pbkdf2.state = .output) :
    Pbkdf2Keyed P k alg inputs pbkdf2 ∧ Pbkdf2Reading P k alg inputs pos pbkdf2 := by
  have hst := h.state
  simpa only [hout] using hst

theorem Pbkdf2Inv.of_output (hout : pbkdf2.state = .output)
    (hkeyed : Pbkdf2Keyed P k alg inputs pbkdf2)
    (hreading : Pbkdf2Reading P k alg inputs pos pbkdf2) :
    Pbkdf2Inv P k alg inputs pos pbkdf2 := by
  refine ⟨fun hne => absurd hout hne, ?_⟩
  simp only [hout]
  exact ⟨hkeyed, hreading⟩

theorem Pbkdf2Inv.start (h : Pbkdf2Inv P k alg inputs pos pbkdf2)
    (hset : pbkdf2.state = .passwordSet) :
    Pbkdf2Inv P k alg inputs pos
      { pbkdf2 with bytesUsed := k.blockSize alg, state := .output } := by
  have hst := h.state
  simp only [hset] at hst
  obtain ⟨hzero, rfl⟩ := h.started (by simp [hset])
  refine .of_output rfl hst ⟨Nat.le_refl _, ?_, ?_⟩
  · simp [hzero]
  · intro i hi
    exact absurd (hzero ▸ hi : 0 = i + 1) (by omega)

theorem pbkdf2Reader_positioned (hfam : k = .pbkdf2Hmac ∨ k = .pbkdf2AesCmacPrf128)
    (hsize : 0 < k.blockSize alg) :
    (pbkdf2Reader env (k.blockSize alg) (pbkdf2DriverPrf P k alg)).Positioned
      (kdfBlock P k alg inputs) ((2 ^ 32 - 1) * k.blockSize alg)
      (fun c p => Pbkdf2Inv P k alg inputs p c ∧ c.state = .output) := by
  have hlen : ∀ i, (kdfBlock P k alg inputs i).length = k.blockSize alg := fun i =>
    length_kdfBlock P k alg inputs i (by rcases hfam with rfl | rfl <;> simp)
  constructor
  · exact hsize
  · rintro c p n ⟨h, hout⟩ hn
    have hn : n ≤ k.blockSize alg - c.bytesUsed := hn
    obtain ⟨hkeyed, hle, hpos, hblock⟩ := h.output hout
    have hmoved : Pbkdf2Reading P k alg inputs (p + n)
        { c with bytesUsed := c.bytesUsed + n } :=
      ⟨(by omega : c.bytesUsed + n ≤ k.blockSize alg),
        (by omega : p + n + k.blockSize alg
          = c.blockNumber * k.blockSize alg + (c.bytesUsed + n)), hblock⟩
    exact ⟨⟨.of_output hout hkeyed hmoved, hout⟩, id⟩
  · rintro c p n ⟨h, hout⟩ hn
    have hn : n ≤ k.blockSize alg - c.bytesUsed := hn
    obtain ⟨_, hle, hpos, hblock⟩ := h.output hout
    show (c.outputBlock.drop c.bytesUsed).take n = segment (k.blockSize alg) _ p n
    cases hb : c.blockNumber with
    | zero =>
      -- block 0 is used up from the beginning
      rw [hb, Nat.zero_mul] at hpos
      obtain rfl : n = 0 := by omega
      simp
    | succ i =>
      have hp : p = i * k.blockSize alg + c.bytesUsed := by
        rw [hb, Nat.succ_mul] at hpos
        omega
      rw [hp, hblock i hb, BlockStream.segment_of_block (hlen i) (by omega)]
  · rintro c p ⟨h, hout⟩
    exact (h.output hout).2.1
  · rintro c p c' ⟨h, hout⟩ hend hlt hnext
    have hend : c.bytesUsed = k.blockSize alg := hend
    obtain ⟨hkeyed, hle, hpos, hblock⟩ := h.output hout
    have hp : p = c.blockNumber * k.blockSize alg := by omega
    have hnumber : c.blockNumber < 2 ^ 32 - 1 := by
      rw [hp] at hlt
      exact Nat.lt_of_mul_lt_mul_right hlt
    rcases pbkdf2GenerateBlock_spec env hkeyed hfam (by omega) with
      hok | ⟨e, _, herr⟩
    · obtain rfl := Except.ok.inj (hok.symm.trans hnext)
      refine ⟨⟨.of_output hout hkeyed ⟨Nat.zero_le _, ?_, ?_⟩, hout⟩, rfl⟩
      · show p + k.blockSize alg = (c.blockNumber + 1) * k.blockSize alg + 0
        rw [Nat.succ_mul]
        omega
      · intro i hi
        have hi : c.blockNumber + 1 = i + 1 := hi
        obtain rfl : i = c.blockNumber := by omega
        rfl
    · cases herr.symm.trans hnext

theorem pbkdf2Prf_eq (hk : k.Is alg = true)
    (hfam : k = .pbkdf2Hmac ∨ k = .pbkdf2AesCmacPrf128) :
    pbkdf2Prf P alg = some (k.blockSize alg, pbkdf2DriverPrf P k alg) := by
  rcases hfam with rfl | rfl
  · have his : psaAlgIsPbkdf2Hmac alg = true := hk
    have hhash := (psaAlgHmacGetHash_hmac (psaAlgKdfGetHash alg)).trans (psaAlgHmacGetHash_kdf alg)
    have hlen : psaHashLength (psaAlgHmac (psaAlgKdfGetHash alg))
        = psaHashLength (psaAlgKdfGetHash alg) :=
      psaHashLength_congr (psaAlgHmacGetHash_hmac _)
    rw [pbkdf2Prf, if_pos his]
    simp [hhash, hlen, pbkdf2DriverPrf, Kdf.blockSize]
  · have hnot : ¬ psaAlgIsPbkdf2Hmac alg = true := by
      have hother := Kdf.is_iff hk .pbkdf2Hmac
      simpa [Kdf.Is] using hother
    have his : alg = psaAlgPbkdf2AesCmacPrf128 := of_decide_eq_true hk
    rw [pbkdf2Prf, if_neg hnot, if_pos his, psaMacLength_aes_cmac]
    simp [pbkdf2DriverPrf, Kdf.blockSize]

variable (env n) in
theorem Pbkdf2Inv.read_incomplete (h : Pbkdf2Inv P k alg inputs pos pbkdf2)
    (hk : k.Is alg = true) (hfam : k = .pbkdf2Hmac ∨ k = .pbkdf2AesCmacPrf128)
    (hincomplete : ¬ inputs.Complete k) :
    psaKeyDerivationPbkdf2Read P env pbkdf2 alg n = .error .errorBadState := by
  have hnot := mt (h.complete_iff hfam).mpr hincomplete
  rw [psaKeyDerivationPbkdf2Read, pbkdf2Prf_eq hk hfam]
  cases hstate : pbkdf2.state <;> simp_all

variable (env) in
theorem Pbkdf2Inv.read (h : Pbkdf2Inv P k alg inputs pos pbkdf2) (hk : k.Is alg = true)
    (hfam : k = .pbkdf2Hmac ∨ k = .pbkdf2AesCmacPrf128) (hsize : 0 < k.blockSize alg)
    (hcomplete : inputs.Complete k)
    (hlimit : pos + n ≤ k.blockLimit * k.blockSize alg) :
    ReadsSegment P k alg inputs pos n (fun c p => Pbkdf2Inv P k alg inputs p c) env.Fault
      (psaKeyDerivationPbkdf2Read P env pbkdf2 alg n) := by
  have hready := (h.complete_iff hfam).mp hcomplete
  have hprf := pbkdf2Prf_eq (P := P) hk hfam
  have hlim : k.blockLimit = 2 ^ 32 - 1 := by
    rcases hfam with rfl | rfl <;> rfl
  have hread : ∀ c : PsaPbkdf2KeyDerivation, Pbkdf2Inv P k alg inputs pos c →
      c.state = .output → ReadsSegment P k alg inputs pos n
        (fun c p => Pbkdf2Inv P k alg inputs p c) env.Fault
        ((pbkdf2Reader env (k.blockSize alg) (pbkdf2DriverPrf P k alg)).read
          .errorCorruptionDetected n c n) := by
    intro c hc hout
    refine (readsSegment_of_positioned _ (pbkdf2Reader_positioned hfam hsize) rfl
      ⟨hc, hout⟩ (hlim ▸ hlimit) ?_).mono (fun _ _ hI => hI.1) fun _ => id
    rintro c p e ⟨hinv, hout⟩ hend hlt hfail
    have hend : c.bytesUsed = k.blockSize alg := hend
    obtain ⟨hkeyed, _, hpos, _⟩ := hinv.output hout
    have hp : p = c.blockNumber * k.blockSize alg := by omega
    have hnumber : c.blockNumber < 2 ^ 32 - 1 := by
      rw [hlim] at hlimit
      rw [hp] at hlt
      exact Nat.lt_of_mul_lt_mul_right (hlt.trans_le hlimit)
    rcases pbkdf2GenerateBlock_spec env hkeyed hfam (by omega) with
      hok | ⟨e', he', herr⟩
    · cases hok.symm.trans hfail
    · obtain rfl := Except.error.inj (herr.symm.trans hfail)
      exact he'
  rw [psaKeyDerivationPbkdf2Read, hprf]
  rcases hready with hset | hout
  · simp only [hset]
    exact hread _ (h.start hset) rfl
  · simp only [hout]
    exact hread _ h hout

end Pbkdf2

/-! ## The dispatch on the algorithm -/

section Dispatch

variable {operation : PsaKeyDerivationOperation}

theorem ReadsSegment.map {γ δ : Type*} {I : γ → Nat → Prop} {I' : δ → Nat → Prop}
    {E : PsaStatus → Prop} {r : Except PsaStatus (γ × ByteString)} {f : γ → δ}
    (h : ReadsSegment P k alg inputs pos n I E r) (hf : ∀ c p, I c p → I' (f c) p) :
    ReadsSegment P k alg inputs pos n I' E (r.map fun x => (f x.1, x.2)) := by
  rcases h with ⟨c, rfl, hc⟩ | ⟨e, rfl, he⟩
  · exact .inl ⟨f c, rfl, hf _ _ hc⟩
  · exact .inr ⟨e, rfl, he⟩

variable (operation env n) in
/-- With complete inputs a read hands out the next segment of the stream. Only the
TLS PRF can be asked for more than its block counter can number. -/
theorem KdfInv.read (h : KdfInv P k alg inputs pos operation.ctx) (hk : k.Is alg = true)
    (hne : k ≠ .tls12EcjpakeToPms) (hsize : 0 < k.blockSize alg)
    (hcomplete : inputs.Complete k)
    (hlimit : k = .tls12Prf ∨ pos + n ≤ k.blockLimit * k.blockSize alg) :
    ∃ r, psaKeyDerivationRead P env operation alg n = some r ∧
      ReadsSegment P k alg inputs pos n (fun c p => KdfInv P k alg inputs p c)
        (fun e => env.Fault e ∨ (e = .errorCorruptionDetected ∧
          k.blockLimit * k.blockSize alg < pos + n)) r := by
  obtain ⟨hhkdf, hprf, hpsk, hecjpake, hpbkdf2⟩ := Kdf.dispatch hk
  unfold psaKeyDerivationRead
  simp only [hhkdf, hprf, hpsk, hecjpake, hpbkdf2]
  cases k with
  | hkdf | hkdfExtract | hkdfExpand =>
    have hread := HkdfInv.read env h hk (by simp) hsize hcomplete (hlimit.resolve_left (by simp))
    exact ⟨_, rfl, (hread.mono (fun _ _ => id) fun _ => .inl).map
      (f := fun c => { operation.ctx with hkdf := c }) fun _ _ => id⟩
  | tls12Prf | tls12PskToMs =>
    have hread := Tls12PrfInv.read n env h (by simp) hsize hcomplete
    exact ⟨_, rfl, hread.map (f := fun c => { operation.ctx with tls12Prf := c }) fun _ _ => id⟩
  | tls12EcjpakeToPms => exact absurd rfl hne
  | pbkdf2Hmac | pbkdf2AesCmacPrf128 =>
    have hread := Pbkdf2Inv.read env h hk (by simp) hsize hcomplete (hlimit.resolve_left (by simp))
    exact ⟨_, rfl, (hread.mono (fun _ _ => id) fun _ => .inl).map
      (f := fun c => { operation.ctx with pbkdf2 := c }) fun _ _ => id⟩

variable (operation env n) in
theorem KdfInv.read_incomplete (h : KdfInv P k alg inputs pos operation.ctx)
    (hk : k.Is alg = true) (hne : k ≠ .tls12EcjpakeToPms)
    (hincomplete : ¬ inputs.Complete k) :
    psaKeyDerivationRead P env operation alg n = some (.error .errorBadState) := by
  obtain ⟨hhkdf, hprf, hpsk, hecjpake, hpbkdf2⟩ := Kdf.dispatch hk
  unfold psaKeyDerivationRead
  simp only [hhkdf, hprf, hpsk, hecjpake, hpbkdf2]
  cases k with
  | hkdf | hkdfExtract | hkdfExpand =>
    exact congrArg (fun r => some (Except.map _ r))
      (HkdfInv.read_incomplete n env h hk (by simp) hincomplete)
  | tls12Prf | tls12PskToMs =>
    exact congrArg (fun r => some (Except.map _ r))
      (Tls12PrfInv.read_incomplete n env h (by simp) hincomplete)
  | tls12EcjpakeToPms => exact absurd rfl hne
  | pbkdf2Hmac | pbkdf2AesCmacPrf128 =>
    exact congrArg (fun r => some (Except.map _ r))
      (Pbkdf2Inv.read_incomplete n env h hk (by simp) hincomplete)

theorem read_ecjpake (hk : Kdf.tls12EcjpakeToPms.Is alg = true) :
    psaKeyDerivationRead P env operation alg n
      = some (if n ≠ 32 then .error .errorInvalidArgument
        else if env.hash ≠ .success then .error env.hash
        else .ok (operation.ctx, P.hash psaAlgSha256 operation.ctx.tls12EcjpakeToPms.data)) := by
  obtain ⟨hhkdf, hprf, hpsk, hecjpake, _⟩ := Kdf.dispatch hk
  unfold psaKeyDerivationRead
  simp only [hhkdf, hprf, hpsk, hecjpake]
  show some ((psaKeyDerivationTls12EcjpakeToPmsRead P env _ n).map _) = _
  unfold psaKeyDerivationTls12EcjpakeToPmsRead
  split
  · rfl
  split <;> rfl

end Dispatch

end TfPsaCrypto
