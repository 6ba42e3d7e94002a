import TfPsaCrypto.Builtin.RsaDerChecks
import TfPsaCrypto.Utilities.Asn1RoundTrip

/-!
# What the RSA parsers accept

A parser that succeeds has read one SEQUENCE of INTEGERs that fills its input; one that fails
leaves no number.
-/

namespace TfPsaCrypto.RsaDer

open Bytes Der Limbs
open RsaPrivate (Build mbedtlsMpiMaxSize)

variable {w : Nat}

/-! ## Elements -/

variable {contents field input : ByteString}

def IsElement (tag : UInt8) (contents bytes : ByteString) : Prop :=
  ∃ bs, Asn1Length contents.length bs ∧ bytes = tag :: (bs ++ contents)

def AreIntegers : List ByteString → ByteString → Prop
  | [], bytes => bytes = []
  | contents :: rest, bytes => ∃ field tail, IsElement mbedtlsAsn1Integer contents field ∧
      bytes = field ++ tail ∧ AreIntegers rest tail

def IsSequence (fields : List ByteString) (bytes : ByteString) : Prop :=
  ∃ body, IsElement asn1ConstructedSequence body bytes ∧ AreIntegers fields body

theorem isElement_element {tag : UInt8} (h : contents.length < 2 ^ 32) :
    IsElement tag contents (element tag contents) :=
  ⟨_, asn1Length_lengthBytes h, rfl⟩

theorem IsElement.getTag {tag : UInt8} (h : IsElement tag contents field) (tail : ByteString) :
    mbedtlsAsn1GetTag (field ++ tail) tag = .ok (contents.length, contents ++ tail) := by
  obtain ⟨bs, hbs, rfl⟩ := h
  rw [mbedtlsAsn1GetTag_iff]
  refine ⟨bs, hbs, ?_, ?_⟩
  · rw [List.cons_append, List.append_assoc]
  · rw [List.length_append]
    omega

theorem of_mbedtlsAsn1GetTag {rest : ByteString} {tag : UInt8} {n : Nat}
    (h : mbedtlsAsn1GetTag input tag = .ok (n, rest)) :
    ∃ field, IsElement tag (rest.take n) field ∧ (rest.take n).length = n ∧
      input = field ++ rest.drop n := by
  obtain ⟨bs, hbs, rfl, hle⟩ := mbedtlsAsn1GetTag_iff.mp h
  have hlen : (rest.take n).length = n := by
    rw [List.length_take]
    omega
  refine ⟨tag :: (bs ++ rest.take n), ⟨bs, by rwa [hlen], rfl⟩, hlen, ?_⟩
  rw [List.cons_append, List.append_assoc, List.take_append_drop]

/-! ## Numbers -/

variable {X : MbedtlsMpi w} {isBigEndian : Bool} {rsa rsa' : MbedtlsRsaContext w}
  {k : ByteString → MbedtlsMpi w → RsaParsed w}

structure ReadFrom (contents : ByteString) (X : MbedtlsMpi w) : Prop where
  s : X.s = 1
  n : X.n = charsToLimbs w contents.length
  abs : X.abs = ofBE contents

theorem ReadFrom.toInt (h : ReadFrom contents X) : X.toInt = ofBE contents := by
  unfold MbedtlsMpi.toInt
  rw [h.s, h.abs, Int.one_mul]

theorem mbedtlsMpiReadBinary_limbs {buf : ByteString} (hX : X.n ≤ mbedtlsMpiMaxLimbs)
    (h : (mbedtlsMpiReadBinary isBigEndian X buf).ret = none) :
    charsToLimbs w buf.length ≤ mbedtlsMpiMaxLimbs := by
  by_contra hbig
  have hresize : mbedtlsMpiResizeClear X (charsToLimbs w buf.length) =
      (MbedtlsMpi.init : MbedtlsMpi w).returns (some .allocFailed) := by
    unfold mbedtlsMpiResizeClear mbedtlsMpiGrow
    rw [if_neg (by omega), if_neg (by omega), if_pos (by omega)]
  unfold mbedtlsMpiReadBinary at h
  simp only [hresize] at h
  rw [if_pos (by simp [MbedtlsMpi.returns])] at h
  exact absurd h (by simp [MbedtlsMpi.returns])

theorem mbedtlsMpiReadBinary_readFrom (hw : w = 32 ∨ w = 64) (isBigEndian : Bool)
    (X : MbedtlsMpi w) {buf : ByteString} (h : charsToLimbs w buf.length ≤ mbedtlsMpiMaxLimbs) :
    ∃ X' : MbedtlsMpi w, mbedtlsMpiReadBinary isBigEndian X buf = X'.returns none ∧
      ReadFrom buf X' := by
  have hlimb : 0 < ciL w ∧ w = 8 * ciL w := by
    rcases hw with rfl | rfl <;> exact ⟨by decide, by decide⟩
  obtain ⟨X', hread, hs, hn, habs⟩ := mbedtlsMpiReadBinary_of_le hlimb.1 hlimb.2 isBigEndian X h
  exact ⟨X', hread, hs, hn, habs⟩

theorem asn1GetNonzeroMpi_element (hw : w = 32 ∨ w = 64) (isBigEndian : Bool) (X : MbedtlsMpi w)
    (h : IsElement mbedtlsAsn1Integer contents field)
    (hlimbs : charsToLimbs w contents.length ≤ mbedtlsMpiMaxLimbs) (hne : ofBE contents ≠ 0)
    (tail : ByteString) :
    ∃ X' : MbedtlsMpi w, ReadFrom contents X' ∧
      asn1GetNonzeroMpi isBigEndian (field ++ tail) X = (.ok tail, X') := by
  obtain ⟨X', hread, hX'⟩ := mbedtlsMpiReadBinary_readFrom hw isBigEndian X hlimbs
  refine ⟨X', hX', ?_⟩
  have hget : mbedtlsAsn1GetMpi isBigEndian (field ++ tail) X = (.ok tail, X') := by
    unfold mbedtlsAsn1GetMpi
    rw [h.getTag tail]
    simp only [List.take_left, List.drop_left, hread]
    rfl
  unfold asn1GetNonzeroMpi
  simp only [hget]
  rw [if_neg]
  rw [hX'.toInt]
  omega

theorem of_asn1GetNonzeroMpi (hw : w = 32 ∨ w = 64) {X' : MbedtlsMpi w} {tail : ByteString}
    (hX : X.n ≤ mbedtlsMpiMaxLimbs) (h : asn1GetNonzeroMpi isBigEndian input X = (.ok tail, X')) :
    ∃ contents field, IsElement mbedtlsAsn1Integer contents field ∧ input = field ++ tail ∧
      ReadFrom contents X' ∧ ofBE contents ≠ 0 ∧
      charsToLimbs w contents.length ≤ mbedtlsMpiMaxLimbs := by
  rcases htag : mbedtlsAsn1GetTag input mbedtlsAsn1Integer with e | ⟨n, rest⟩
  · simp only [asn1GetNonzeroMpi, mbedtlsAsn1GetMpi, htag] at h
    exact absurd h (by simp)
  obtain ⟨field, hfield, hlen, rfl⟩ := of_mbedtlsAsn1GetTag htag
  rcases hret : (mbedtlsMpiReadBinary isBigEndian X (rest.take n)).ret with _ | e
  · have hlimbs := mbedtlsMpiReadBinary_limbs hX hret
    obtain ⟨X₁, hread, hX₁⟩ := mbedtlsMpiReadBinary_readFrom hw isBigEndian X hlimbs
    simp only [asn1GetNonzeroMpi, mbedtlsAsn1GetMpi, htag, hread, MbedtlsMpi.returns] at h
    split at h
    · exact absurd h (by simp)
    next hne =>
    obtain ⟨rfl, rfl⟩ := h
    refine ⟨rest.take n, field, hfield, rfl, hX₁, ?_, hlimbs⟩
    intro hzero
    rw [hX₁.toInt, hzero] at hne
    exact hne rfl
  · simp only [asn1GetNonzeroMpi, mbedtlsAsn1GetMpi, htag, hret] at h
    exact absurd h (by simp)

theorem importMpi_element (hw : w = 32 ∨ w = 64) (isBigEndian : Bool) (X : MbedtlsMpi w)
    (h : IsElement mbedtlsAsn1Integer contents field)
    (hlimbs : charsToLimbs w contents.length ≤ mbedtlsMpiMaxLimbs) (hne : ofBE contents ≠ 0)
    (rsa : MbedtlsRsaContext w) (tail : ByteString) (k : ByteString → MbedtlsMpi w → RsaParsed w) :
    ∃ X' : MbedtlsMpi w, ReadFrom contents X' ∧
      importMpi isBigEndian rsa (field ++ tail) X k = k tail X' := by
  obtain ⟨X', hX', hget⟩ := asn1GetNonzeroMpi_element hw isBigEndian X h hlimbs hne tail
  refine ⟨X', hX', ?_⟩
  unfold importMpi
  rw [hget]

theorem of_importMpi (hw : w = 32 ∨ w = 64) (hX : X.n ≤ mbedtlsMpiMaxLimbs)
    (h : importMpi isBigEndian rsa input X k = ⟨none, rsa'⟩) :
    ∃ contents field tail, ∃ X' : MbedtlsMpi w, IsElement mbedtlsAsn1Integer contents field ∧
      input = field ++ tail ∧ ReadFrom contents X' ∧ ofBE contents ≠ 0 ∧
      X'.n ≤ mbedtlsMpiMaxLimbs ∧ k tail X' = ⟨none, rsa'⟩ := by
  rcases hget : asn1GetNonzeroMpi isBigEndian input X with ⟨e | tail, X'⟩
  · simp only [importMpi, hget, cleanup] at h
    exact absurd h (by simp)
  · obtain ⟨contents, field, hfield, rfl, hX', hne, hlimbs⟩ := of_asn1GetNonzeroMpi hw hX hget
    simp only [importMpi, hget] at h
    exact ⟨contents, field, tail, X', hfield, rfl, hX', hne, by rwa [hX'.n], h⟩

theorem of_mbedtlsAsn1GetInt {tail : ByteString} {v : Nat}
    (h : mbedtlsAsn1GetInt input = .ok (v, tail)) :
    ∃ contents field, IsElement mbedtlsAsn1Integer contents field ∧ input = field ++ tail ∧
      contents ≠ [] ∧ ofBE contents = v := by
  unfold mbedtlsAsn1GetInt asn1GetTaggedInt at h
  rcases htag : mbedtlsAsn1GetTag input mbedtlsAsn1Integer with e | ⟨n, rest⟩
  · rw [htag] at h
    exact absurd h (by simp)
  obtain ⟨field, hfield, hlen, rfl⟩ := of_mbedtlsAsn1GetTag htag
  simp only [htag] at h
  have hsplit := List.take_append_drop n rest
  generalize rest.take n = contents at hfield hlen hsplit
  generalize rest.drop n = rest' at hsplit h ⊢
  subst hlen hsplit
  have hskip := asn1SkipZeros_eq contents rest'
  have hloop := asn1GetIntLoop_eq (contents.dropWhile (· = 0)) 0 rest'
  rw [Nat.zero_mul, Nat.zero_add, dropWhile_zero, ofBE_toBE_byteCount] at hloop
  rw [dropWhile_zero] at hskip
  simp only [hskip, hloop] at h
  -- what is refused: no contents, a negative number, one of more than 31 bits
  refine ⟨contents, field, hfield, ?_⟩
  split at h
  · exact absurd h (by simp)
  next hne =>
  split at h
  · exact absurd h (by simp)
  split at h
  · exact absurd h (by simp)
  split at h
  · exact absurd h (by simp)
  split at h
  · exact absurd h (by simp)
  obtain ⟨rfl, rfl⟩ := h
  refine ⟨rfl, ?_, rfl⟩
  rintro rfl
  exact hne rfl

/-! ## Failures -/

variable {build : Build}

def NoParameters (rsa : MbedtlsRsaContext w) : Prop := rsa.free = rsa

def FreedOnFailure (r : RsaParsed w) : Prop := r.ret ≠ none → NoParameters r.rsa

theorem freedOnFailure_of {r : RsaParsed w} (h : NoParameters r.rsa) : FreedOnFailure r :=
  fun _ => h

theorem freedOnFailure_success (rsa : MbedtlsRsaContext w) :
    FreedOnFailure { ret := none, rsa := rsa } :=
  fun h => absurd rfl h

theorem freedOnFailure_cleanup (rsa : MbedtlsRsaContext w) (e : RsaError) :
    FreedOnFailure (cleanup rsa e) :=
  fun _ => rfl

theorem importMpi_freed (hk : ∀ input X, FreedOnFailure (k input X)) :
    FreedOnFailure (importMpi isBigEndian rsa input X k) := by
  unfold importMpi
  split
  · exact freedOnFailure_cleanup _ _
  · exact hk _ _

theorem parseKeyEnd_freed (build : Build) (input : ByteString) (rsa : MbedtlsRsaContext w) :
    FreedOnFailure (parseKeyEnd build input rsa) := by
  unfold parseKeyEnd
  split
  · exact freedOnFailure_cleanup _ _
  split
  · exact freedOnFailure_cleanup _ _
  · split
    · exact freedOnFailure_cleanup _ _
    · exact freedOnFailure_success _

theorem importCrt_freed {k : ByteString → MbedtlsRsaContext w → RsaParsed w}
    (hk : ∀ input rsa, FreedOnFailure (k input rsa)) :
    FreedOnFailure (importCrt build isBigEndian rsa input k) := by
  cases build with
  | crt =>
    refine importMpi_freed fun _ _ => ?_
    refine importMpi_freed fun _ _ => ?_
    exact importMpi_freed fun _ _ => hk _ _
  | noCrt =>
    refine importMpi_freed fun _ _ => ?_
    refine importMpi_freed fun _ _ => ?_
    exact importMpi_freed fun _ _ => hk _ _

theorem parseKeyFields_freed (build : Build) (isBigEndian : Bool) (rsa : MbedtlsRsaContext w)
    (input : ByteString) : FreedOnFailure (parseKeyFields build isBigEndian rsa input) := by
  refine importMpi_freed fun _ _ => ?_
  refine importMpi_freed fun _ _ => ?_
  refine importMpi_freed fun _ _ => ?_
  refine importMpi_freed fun _ _ => ?_
  refine importMpi_freed fun _ _ => ?_
  exact importCrt_freed (parseKeyEnd_freed build)

theorem mbedtlsRsaParseKey_freed (build : Build) (isBigEndian : Bool) (hrsa : NoParameters rsa)
    (key : ByteString) :
    FreedOnFailure (mbedtlsRsaParseKey build isBigEndian rsa key) := by
  unfold mbedtlsRsaParseKey
  -- the first returns come before any number is read
  split
  · exact freedOnFailure_of hrsa
  split
  · exact freedOnFailure_of hrsa
  split
  · exact freedOnFailure_of hrsa
  · split
    · exact freedOnFailure_of hrsa
    · exact parseKeyFields_freed _ _ _ _

theorem exitPubkey_freed (hrsa : NoParameters rsa) (len : Nat) (N E : MbedtlsMpi w) (e : RsaError) :
    FreedOnFailure (exitPubkey { rsa with len := len, N := N, E := E } e) := by
  apply freedOnFailure_of
  rw [← hrsa]
  rfl

theorem importPubkeyMpi_freed (hexit : ∀ e, FreedOnFailure (exitPubkey rsa e))
    (hk : ∀ input X, FreedOnFailure (k input X)) :
    FreedOnFailure (importPubkeyMpi isBigEndian rsa input X k) := by
  unfold importPubkeyMpi
  split
  · exact hexit _
  · simp only
    split
    · exact hexit _
    · exact hk _ _

theorem mbedtlsRsaParsePubkey_freed (build : Build) (isBigEndian : Bool) (hrsa : NoParameters rsa)
    (key : ByteString) :
    FreedOnFailure (mbedtlsRsaParsePubkey build isBigEndian rsa key) := by
  have hexit := exitPubkey_freed hrsa
  unfold mbedtlsRsaParsePubkey
  split
  · exact hexit rsa.len rsa.N rsa.E _
  split
  · exact hexit rsa.len rsa.N rsa.E _
  refine importPubkeyMpi_freed (hexit rsa.len rsa.N rsa.E) fun _ N => ?_
  refine importPubkeyMpi_freed (hexit (mbedtlsMpiSize N) N rsa.E) fun _ E => ?_
  simp only
  split
  · exact hexit (mbedtlsMpiSize N) N E _
  · split
    · exact hexit (mbedtlsMpiSize N) N E _
    · exact freedOnFailure_success _

/-! ## What is accepted -/

/-- The numbers of a context are those of the INTEGERs of an `RSAPrivateKey`. -/
structure PrivateKeyFields (build : Build) (rsa : MbedtlsRsaContext w)
    (n e d p q dp dq qp : ByteString) : Prop where
  N : ReadFrom n rsa.N
  E : ReadFrom e rsa.E
  D : ReadFrom d rsa.D
  P : ReadFrom p rsa.P
  Q : ReadFrom q rsa.Q
  crt : build = .crt → ReadFrom dp rsa.DP ∧ ReadFrom dq rsa.DQ ∧ ReadFrom qp rsa.QP
  nonzero : ∀ contents ∈ [n, e, d, p, q, dp, dq, qp], ofBE contents ≠ 0

theorem of_parseKeyEnd (h : parseKeyEnd build input rsa = ⟨none, rsa'⟩) :
    rsa' = rsa ∧ input = [] ∧ mbedtlsRsaCheckPrivkey build rsa = .ok () ∧
      rsa.len * 8 ≤ psaVendorRsaMaxKeyBits := by
  unfold parseKeyEnd at h
  split at h
  · exact absurd h (by simp [cleanup])
  next hlen =>
  split at h
  · exact absurd h (by simp [cleanup])
  next hcheck =>
  split at h
  · exact absurd h (by simp [cleanup])
  · next hend =>
    rw [not_not] at hend
    simp only [RsaParsed.mk.injEq, true_and] at h
    exact ⟨h.symm, hend, hcheck, Nat.not_lt.mp hlen⟩

theorem of_importCrt (hw : w = 32 ∨ w = 64) {k : ByteString → MbedtlsRsaContext w → RsaParsed w}
    (hDP : rsa.DP = .init) (hDQ : rsa.DQ = .init) (hQP : rsa.QP = .init)
    (h : importCrt build isBigEndian rsa input k = ⟨none, rsa'⟩) :
    ∃ dp dq qp tail, ∃ rsa₁ : MbedtlsRsaContext w,
      (∀ rest, AreIntegers rest tail → AreIntegers (dp :: dq :: qp :: rest) input) ∧
      rsa₁.len = rsa.len ∧ rsa₁.N = rsa.N ∧ rsa₁.E = rsa.E ∧ rsa₁.D = rsa.D ∧ rsa₁.P = rsa.P ∧
      rsa₁.Q = rsa.Q ∧
      (build = .crt → ReadFrom dp rsa₁.DP ∧ ReadFrom dq rsa₁.DQ ∧ ReadFrom qp rsa₁.QP) ∧
      ofBE dp ≠ 0 ∧ ofBE dq ≠ 0 ∧ ofBE qp ≠ 0 ∧ k tail rsa₁ = ⟨none, rsa'⟩ := by
  have hinit : (MbedtlsMpi.init : MbedtlsMpi w).n ≤ mbedtlsMpiMaxLimbs := Nat.zero_le _
  cases build with
  | crt =>
    simp only [importCrt, hDP, hDQ, hQP] at h
    obtain ⟨dp, f₁, t₁, DP, hf₁, rfl, hrDP, hdp, _, h⟩ := of_importMpi hw hinit h
    obtain ⟨dq, f₂, t₂, DQ, hf₂, rfl, hrDQ, hdq, _, h⟩ := of_importMpi hw hinit h
    obtain ⟨qp, f₃, t₃, QP, hf₃, rfl, hrQP, hqp, _, h⟩ := of_importMpi hw hinit h
    refine ⟨dp, dq, qp, t₃, { rsa with DP := DP, DQ := DQ, QP := QP }, ?_, rfl, rfl, rfl, rfl,
      rfl, rfl, fun _ => ⟨hrDP, hrDQ, hrQP⟩, hdp, hdq, hqp, h⟩
    intro rest hrest
    exact ⟨f₁, _, hf₁, rfl, f₂, _, hf₂, rfl, f₃, _, hf₃, rfl, hrest⟩
  | noCrt =>
    obtain ⟨dp, f₁, t₁, T₁, hf₁, rfl, _, hdp, hT₁, h⟩ := of_importMpi hw hinit h
    obtain ⟨dq, f₂, t₂, T₂, hf₂, rfl, _, hdq, hT₂, h⟩ := of_importMpi hw hT₁ h
    obtain ⟨qp, f₃, t₃, T₃, hf₃, rfl, _, hqp, _, h⟩ := of_importMpi hw hT₂ h
    refine ⟨dp, dq, qp, t₃, rsa, ?_, rfl, rfl, rfl, rfl, rfl, rfl, ?_, hdp, hdq, hqp, h⟩
    · intro rest hrest
      exact ⟨f₁, _, hf₁, rfl, f₂, _, hf₂, rfl, f₃, _, hf₃, rfl, hrest⟩
    · intro hcrt
      exact Build.noConfusion hcrt

theorem of_mbedtlsRsaParseKey (hw : w = 32 ∨ w = 64) {key : ByteString}
    (h : mbedtlsRsaParseKey build isBigEndian .init key = ⟨none, rsa⟩) :
    ∃ version n e d p q dp dq qp,
      IsSequence [version, n, e, d, p, q, dp, dq, qp] key ∧ version ≠ [] ∧ ofBE version = 0 ∧
      PrivateKeyFields build rsa n e d p q dp dq qp ∧
      mbedtlsRsaCheckPrivkey build rsa = .ok () ∧ rsa.len * 8 ≤ psaVendorRsaMaxKeyBits := by
  have hinit : (MbedtlsMpi.init : MbedtlsMpi w).n ≤ mbedtlsMpiMaxLimbs := Nat.zero_le _
  unfold mbedtlsRsaParseKey at h
  split at h
  · exact absurd h (by simp)
  next len body htag =>
  split at h
  · exact absurd h (by simp)
  next hlen =>
  rw [not_not] at hlen
  obtain ⟨seq, hseq, _, rfl⟩ := of_mbedtlsAsn1GetTag htag
  rw [← hlen, List.take_length] at hseq
  rw [← hlen, List.drop_length, List.append_nil]
  split at h
  · exact absurd h (by simp)
  next v input hint =>
  split at h
  · exact absurd h (by simp)
  next hv =>
  rw [not_not] at hv
  subst hv
  obtain ⟨version, f₀, hf₀, rfl, hne, hzero⟩ := of_mbedtlsAsn1GetInt hint
  obtain ⟨n, f₁, t₁, N, hf₁, rfl, hN, hn, _, h⟩ := of_importMpi hw hinit h
  obtain ⟨e, f₂, t₂, E, hf₂, rfl, hE, he, _, h⟩ := of_importMpi hw hinit h
  obtain ⟨d, f₃, t₃, D, hf₃, rfl, hD, hd, _, h⟩ := of_importMpi hw hinit h
  obtain ⟨p, f₄, t₄, P, hf₄, rfl, hP, hp, _, h⟩ := of_importMpi hw hinit h
  obtain ⟨q, f₅, t₅, Q, hf₅, rfl, hQ, hq, _, h⟩ := of_importMpi hw hinit h
  obtain ⟨dp, dq, qp, tail, rsa₁, hcrt, hlen₁, hN₁, hE₁, hD₁, hP₁, hQ₁, hread,
    hdp, hdq, hqp, h⟩ := of_importCrt hw rfl rfl rfl h
  obtain ⟨rfl, rfl, hcheck, hbits⟩ := of_parseKeyEnd h
  refine ⟨version, n, e, d, p, q, dp, dq, qp, ⟨_, hseq, f₀, _, hf₀, rfl, f₁, _,
    hf₁, rfl, f₂, _, hf₂, rfl, f₃, _, hf₃, rfl, f₄, _, hf₄, rfl, f₅, _, hf₅, rfl,
    hcrt [] rfl⟩, hne, hzero, ?_, hcheck, hbits⟩
  refine ⟨hN₁ ▸ hN, hE₁ ▸ hE, hD₁ ▸ hD, hP₁ ▸ hP, hQ₁ ▸ hQ, hread, ?_⟩
  simp only [List.mem_cons, List.not_mem_nil, or_false]
  rintro contents (rfl | rfl | rfl | rfl | rfl | rfl | rfl | rfl) <;> assumption

theorem of_importPubkeyMpi (hw : w = 32 ∨ w = 64)
    (h : importPubkeyMpi isBigEndian rsa input .init k = ⟨none, rsa'⟩) :
    ∃ contents field tail, ∃ X : MbedtlsMpi w, IsElement mbedtlsAsn1Integer contents field ∧
      input = field ++ tail ∧ ReadFrom contents X ∧ k tail X = ⟨none, rsa'⟩ := by
  unfold importPubkeyMpi at h
  split at h
  · exact absurd h (by simp [exitPubkey])
  next n rest htag =>
  obtain ⟨field, hfield, _, rfl⟩ := of_mbedtlsAsn1GetTag htag
  simp only at h
  split at h
  · exact absurd h (by simp [exitPubkey])
  next hret =>
  rw [not_not] at hret
  have hlimbs := mbedtlsMpiReadBinary_limbs (Nat.zero_le _) hret
  obtain ⟨X, hread, hX⟩ := mbedtlsMpiReadBinary_readFrom hw isBigEndian .init hlimbs
  rw [hread] at h
  exact ⟨_, field, _, X, hfield, rfl, hX, h⟩

theorem of_mbedtlsRsaParsePubkey (hw : w = 32 ∨ w = 64) {rsa₀ : MbedtlsRsaContext w}
    {key : ByteString} (h : mbedtlsRsaParsePubkey build isBigEndian rsa₀ key = ⟨none, rsa⟩) :
    ∃ n e, IsSequence [n, e] key ∧ ReadFrom n rsa.N ∧ ReadFrom e rsa.E ∧
      mbedtlsRsaCheckPubkey build rsa = .ok () := by
  unfold mbedtlsRsaParsePubkey at h
  split at h
  · exact absurd h (by simp [exitPubkey])
  next len body htag =>
  split at h
  · exact absurd h (by simp [exitPubkey])
  next hlen =>
  rw [not_not] at hlen
  obtain ⟨seq, hseq, _, rfl⟩ := of_mbedtlsAsn1GetTag htag
  rw [← hlen, List.take_length] at hseq
  rw [← hlen, List.drop_length, List.append_nil]
  obtain ⟨n, f₁, t₁, N, hf₁, rfl, hN, hrest⟩ := of_importPubkeyMpi hw h
  obtain ⟨e, f₂, t₂, E, hf₂, rfl, hE, hend⟩ := of_importPubkeyMpi hw hrest
  clear h hrest
  simp only at hend
  split at hend
  · exact absurd hend (by simp [exitPubkey])
  next hcheck =>
  rw [not_not] at hcheck
  split at hend
  · exact absurd hend (by simp [exitPubkey])
  next hnil =>
  rw [not_not] at hnil
  subst hnil
  simp only [RsaParsed.mk.injEq, true_and] at hend
  subst hend
  exact ⟨n, e, ⟨_, hseq, f₁, _, hf₁, rfl, f₂, _, hf₂, rfl, rfl⟩, hN, hE, hcheck⟩

end TfPsaCrypto.RsaDer
