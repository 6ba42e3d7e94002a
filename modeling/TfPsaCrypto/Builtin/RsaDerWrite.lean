import TfPsaCrypto.Builtin.RsaDerParse

/-!
# RSA key round trips

A key that passes the checks is written as one DER element, and the parser reads its numbers back
where its checks can divide them.
-/

namespace TfPsaCrypto.RsaDer

open Bytes Der Limbs
open RsaPrivate (Build mbedtlsMpiMaxSize)

variable {w : Nat}

/-! ## The checks see values -/

variable {X Y : MbedtlsMpi w} {build : Build} {ctx : MbedtlsRsaContext w}

structure SameMpi (X Y : MbedtlsMpi w) : Prop where
  toInt : X.toInt = Y.toInt
  abs : X.abs = Y.abs

structure SamePublic (ctx ctx' : MbedtlsRsaContext w) : Prop where
  len : ctx.len = ctx'.len
  N : SameMpi ctx.N ctx'.N
  E : SameMpi ctx.E ctx'.E

structure SameKey (build : Build) (ctx ctx' : MbedtlsRsaContext w) : Prop
    extends SamePublic ctx ctx' where
  D : SameMpi ctx.D ctx'.D
  P : SameMpi ctx.P ctx'.P
  Q : SameMpi ctx.Q ctx'.Q
  crt : build = .crt → SameMpi ctx.DP ctx'.DP ∧ SameMpi ctx.DQ ctx'.DQ ∧ SameMpi ctx.QP ctx'.QP

theorem SameMpi.bit0 (h : SameMpi X Y) : mpiBit0 X = mpiBit0 Y := by
  unfold mpiBit0
  rw [h.abs]

theorem SameMpi.bitlen (h : SameMpi X Y) : mbedtlsMpiBitlen X = mbedtlsMpiBitlen Y := by
  rw [mbedtlsMpiBitlen_eq, mbedtlsMpiBitlen_eq, h.abs]

theorem SameMpi.size (h : SameMpi X Y) : mbedtlsMpiSize X = mbedtlsMpiSize Y := by
  unfold mbedtlsMpiSize
  rw [h.bitlen]

theorem mbedtlsRsaCheckPubkey_congr {ctx' : MbedtlsRsaContext w} (h : SamePublic ctx ctx') :
    mbedtlsRsaCheckPubkey build ctx = mbedtlsRsaCheckPubkey build ctx' := by
  unfold mbedtlsRsaCheckPubkey rsaCheckContext
  simp only [h.len, h.N.size, h.N.toInt, h.N.bit0, h.N.bitlen, h.E.toInt, h.E.bit0, h.E.bitlen,
    Bool.not_false, Bool.or_true, Bool.true_or]

theorem rsaCheckContext_congr {ctx' : MbedtlsRsaContext w} (h : SameKey build ctx ctx') :
    rsaCheckContext build ctx true true = rsaCheckContext build ctx' true true := by
  unfold rsaCheckContext
  simp only [h.len, h.N.size, h.N.toInt, h.N.bit0, h.E.toInt, h.D.toInt, h.P.toInt, h.P.bit0,
    h.Q.toInt, h.Q.bit0]
  cases build with
  | crt =>
    obtain ⟨hDP, hDQ, hQP⟩ := h.crt rfl
    simp only [hDP.toInt, hDQ.toInt, hQP.toInt]
  | noCrt => simp

/-! ## Keys that pass -/

structure PublicFacts (ctx : MbedtlsRsaContext w) : Prop where
  len : ctx.len = mbedtlsMpiSize ctx.N
  len_le : ctx.len ≤ mbedtlsMpiMaxSize
  N_pos : 0 < ctx.N.toInt
  N_odd : mpiBit0 ctx.N = true
  E_pos : 0 < ctx.E.toInt
  E_lt : ctx.E.toInt < ctx.N.toInt

theorem of_mbedtlsRsaCheckPubkey (h : mbedtlsRsaCheckPubkey build ctx = .ok ()) :
    PublicFacts ctx := by
  unfold mbedtlsRsaCheckPubkey at h
  split at h
  · exact absurd h (by simp)
  next hcontext =>
  split at h
  · exact absurd h (by simp)
  split at h
  · exact absurd h (by simp)
  next hexponent =>
  simp only [rsaCheckContext, Bool.not_false, Bool.or_true, Bool.true_or,
    Bool.and_true, Bool.and_eq_false_iff, not_or, Bool.not_eq_false,
    decide_eq_true_eq] at hcontext
  obtain ⟨⟨⟨⟨hlen, hle⟩, hN⟩, hodd⟩, hE⟩ := hcontext
  exact ⟨hlen, hle, hN, hodd, hE, by omega⟩

theorem mbedtlsRsaCheckPrivkey_eq_ok :
    mbedtlsRsaCheckPrivkey build ctx = .ok () ↔
      mbedtlsRsaCheckPubkey build ctx = .ok () ∧ rsaCheckContext build ctx true true = true ∧
      mbedtlsRsaValidateParams w ctx.N.num ctx.P.num ctx.Q.num ctx.D.num ctx.E.num = .ok () ∧
      (build = .crt → mbedtlsRsaValidateCrt w ctx.P.num ctx.Q.num ctx.D.num ctx.DP.num
        ctx.DQ.num ctx.QP.num = .ok ()) := by
  unfold mbedtlsRsaCheckPrivkey
  constructor
  · intro h
    split at h
    · exact absurd h (by simp)
    next hfirst =>
    rw [not_or, not_not, Bool.not_eq_false] at hfirst
    split at h
    · exact absurd h (by simp)
    next hparams =>
    rw [not_not] at hparams
    split at h
    · exact absurd h (by simp)
    next hcrt =>
    refine ⟨hfirst.1, hfirst.2, hparams, ?_⟩
    intro hbuild
    by_contra hbad
    exact hcrt ⟨hbuild, hbad⟩
  · rintro ⟨hpub, hcontext, hparams, hcrt⟩
    rw [if_neg (by simp [hpub, hcontext]), if_neg (by simp [hparams])]
    rw [if_neg]
    rintro ⟨hbuild, hbad⟩
    exact hbad (hcrt hbuild)

theorem crt_pos (h : rsaCheckContext .crt ctx true true = true) :
    0 < ctx.DP.toInt ∧ 0 < ctx.DQ.toInt ∧ 0 < ctx.QP.toInt := by
  simp only [rsaCheckContext, Bool.and_eq_true, decide_eq_true_eq, Bool.not_true,
    Bool.false_or, Bool.or_eq_true] at h
  obtain ⟨⟨⟨_, hexp⟩, _⟩, hcoef⟩ := h
  refine ⟨hexp.1, hexp.2, ?_⟩
  -- the build has a CRT, and the check is for a private key
  rcases hcoef with (hbuild | hfalse) | hpos
  · exact Build.noConfusion hbuild
  · exact absurd hfalse (by simp)
  · exact hpos

structure Signed (build : Build) (ctx : MbedtlsRsaContext w) : Prop where
  N : ctx.N.s = 1 ∨ ctx.N.s = -1
  E : ctx.E.s = 1 ∨ ctx.E.s = -1
  D : ctx.D.s = 1 ∨ ctx.D.s = -1
  P : ctx.P.s = 1 ∨ ctx.P.s = -1
  Q : ctx.Q.s = 1 ∨ ctx.Q.s = -1
  crt : build = .crt → (ctx.DP.s = 1 ∨ ctx.DP.s = -1) ∧ (ctx.DQ.s = 1 ∨ ctx.DQ.s = -1) ∧
    (ctx.QP.s = 1 ∨ ctx.QP.s = -1)

structure Positive (X : MbedtlsMpi w) : Prop where
  s : X.s = 1
  toInt : X.toInt = X.abs
  abs_pos : 0 < X.abs

theorem positive_of_sign (hs : X.s = 1 ∨ X.s = -1) (hpos : 0 < X.toInt) : Positive X := by
  unfold MbedtlsMpi.toInt at hpos
  rcases hs with hs | hs
  · rw [hs, Int.one_mul] at hpos
    refine ⟨hs, ?_, by omega⟩
    unfold MbedtlsMpi.toInt
    rw [hs, Int.one_mul]
  · rw [hs] at hpos
    omega

theorem ReadFrom.positive {contents : ByteString} (h : ReadFrom contents X)
    (hpos : 0 < ofBE contents) : Positive X :=
  ⟨h.s, by rw [h.toInt, h.abs], by rwa [h.abs]⟩

theorem Positive.sameMpi (hX : Positive X) (hY : Positive Y) (h : X.abs = Y.abs) : SameMpi X Y :=
  ⟨by rw [hX.toInt, hY.toInt, h], h⟩

theorem Positive.small (hw : 0 < w) (h : Positive X) (hn : X.n ≤ mpiDivLimbs) : X.num.Small w :=
  ⟨hn, Nat.le_trans (MbedtlsMpi.limbCount_le hw h.s) hn⟩

/-! ## Writing -/

variable {Xs : List (MbedtlsMpi w)} {rsa : MbedtlsRsaContext w}

def derMpi (X : MbedtlsMpi w) : ByteString := element mbedtlsAsn1Integer (integerBytes X.abs)

def derMpis : List (MbedtlsMpi w) → ByteString
  | [] => []
  | X :: Xs => derMpis Xs ++ derMpi X

structure Writable (X : MbedtlsMpi w) : Prop where
  s : X.s = 1
  size : X.abs.size ≤ w * mpiDivLimbs

theorem length_element_le {contents : ByteString} {tag : UInt8} (h : contents.length < 2 ^ 20) :
    (element tag contents).length < 2 ^ 21 := by
  have hcount : byteCount contents.length ≤ 3 := by
    rw [byteCount_le]
    omega
  rw [length_element, length_lengthBytes]
  split <;> omega

theorem Writable.length_derMpi (hw : w = 32 ∨ w = 64) (h : Writable X) :
    (integerBytes X.abs).length < 2 ^ 20 ∧ (derMpi X).length < 2 ^ 21 := by
  have hsize := h.size
  have hlimbs : mpiDivLimbs = 9998 := rfl
  have hcontents : (integerBytes X.abs).length < 2 ^ 20 := by
    rw [length_integerBytes]
    rcases hw with rfl | rfl <;> omega
  exact ⟨hcontents, length_element_le hcontents⟩

theorem writeMpis_writes (hw : w = 32 ∨ w = 64) {Xs : List (MbedtlsMpi w)}
    (hXs : ∀ X ∈ Xs, Writable X) {p : Asn1Writer} {len : Nat} {cs : ByteString} {n : Int}
    {k : Nat → Asn1Writer → Asn1Written}
    (hk : Asn1Writes (p.after (derMpis Xs)) cs n
      (k (len + (derMpis Xs).length) (p.after (derMpis Xs)))) :
    Asn1Writes p (cs ++ derMpis Xs) n (writeMpis Xs len p k) := by
  have hlimb : 0 < ciL w ∧ w = 8 * ciL w := by
    rcases hw with rfl | rfl <;> exact ⟨by decide, by decide⟩
  -- the buffer is filled from its end: the first number of the list is the last one in it
  induction Xs generalizing p len with
  | nil =>
    rw [derMpis, p.after_nil] at hk
    rw [derMpis, List.append_nil]
    exact hk
  | cons X Xs ih =>
    have hX := hXs X List.mem_cons_self
    have hlen := (hX.length_derMpi hw).2
    have hwrite := mbedtlsAsn1WriteMpi_writes hlimb.1 hlimb.2 (Or.inl hX.s)
      (Nat.lt_trans hlen (by decide)) p
    rw [derMpis, ← List.append_assoc]
    apply hwrite.chkAdd
    apply ih fun Y hY => hXs Y (List.mem_cons_of_mem X hY)
    rw [derMpis, List.length_append, ← Asn1Writer.after_after] at hk
    have hsum : len + ((derMpis Xs).length + (derMpi X).length) =
        len + (derMpi X).length + (derMpis Xs).length := by omega
    rwa [hsum] at hk

theorem length_derMpis_le (hw : w = 32 ∨ w = 64) (hXs : ∀ X ∈ Xs, Writable X) :
    (derMpis Xs).length ≤ Xs.length * 2 ^ 21 := by
  induction Xs with
  | nil => simp [derMpis]
  | cons X Xs ih =>
    have hX := ((hXs X List.mem_cons_self).length_derMpi hw).2
    have hrest := ih fun Y hY => hXs Y (List.mem_cons_of_mem X hY)
    rw [derMpis, List.length_append, List.length_cons, Nat.succ_mul]
    omega

theorem writeSequence_writes {p : Asn1Writer} {contents : ByteString}
    (hlen : contents.length < 2 ^ 30) :
    Asn1Writes p (asn1ConstructedSequence :: lengthBytes contents.length)
      (element asn1ConstructedSequence contents).length (writeSequence contents.length p) := by
  have hcount : byteCount contents.length ≤ 4 := by
    rw [byteCount_le]
    omega
  have htotal : (element asn1ConstructedSequence contents).length =
      contents.length + (lengthBytes contents.length).length + 1 := by
    rw [length_element]
    omega
  have hint : cInt (contents.length + (lengthBytes contents.length).length + 1) =
      (element asn1ConstructedSequence contents).length := by
    rw [htotal, cInt_of_lt]
    rw [length_lengthBytes]
    split <;> omega
  rw [← List.singleton_append]
  apply (mbedtlsAsn1WriteLen_writes (by omega) p).chkAdd
  rw [← List.nil_append [asn1ConstructedSequence]]
  apply (mbedtlsAsn1WriteTag_writes _ _).chkAdd
  rw [hint]
  exact asn1Writes_nil _ _

def derKey (Xs : List (MbedtlsMpi w)) : ByteString :=
  element asn1ConstructedSequence (element mbedtlsAsn1Integer (integerBytes 0) ++ derMpis Xs)

theorem mbedtlsRsaWriteKey_asn1Writes (hw : w = 32 ∨ w = 64)
    (hexport : exportedMpis build rsa = .ok Xs) (hcount : Xs.length ≤ 8)
    (hXs : ∀ X ∈ Xs, Writable X) (p : Asn1Writer) :
    Asn1Writes p (derKey Xs) (derKey Xs).length (mbedtlsRsaWriteKey build rsa p) := by
  have hlen := length_derMpis_le hw hXs
  have hversion : (element mbedtlsAsn1Integer (integerBytes 0)).length < 2 ^ 21 :=
    length_element_le (by decide)
  unfold mbedtlsRsaWriteKey derKey
  rw [hexport]
  have hsplit : element asn1ConstructedSequence
      (element mbedtlsAsn1Integer (integerBytes 0) ++ derMpis Xs) =
      ((asn1ConstructedSequence :: lengthBytes
          (element mbedtlsAsn1Integer (integerBytes 0) ++ derMpis Xs).length) ++
        element mbedtlsAsn1Integer (integerBytes 0)) ++ derMpis Xs := by
    unfold element
    simp only [List.cons_append, List.append_assoc]
  have hseq := fun p => @writeSequence_writes p
    (element mbedtlsAsn1Integer (integerBytes 0) ++ derMpis Xs)
    (by rw [List.length_append]; omega)
  -- the length in the header is kept as it is while the bytes are taken apart
  generalize hn : (element asn1ConstructedSequence
    (element mbedtlsAsn1Integer (integerBytes 0) ++ derMpis Xs)).length = n at hseq ⊢
  rw [hsplit]
  apply writeMpis_writes hw hXs
  apply (mbedtlsAsn1WriteInt_writes (by decide) _).chkAdd
  rw [Nat.zero_add, Nat.add_comm, ← List.length_append]
  exact hseq _

theorem mbedtlsRsaWriteKey_writes (hw : w = 32 ∨ w = 64) (hexport : exportedMpis build rsa = .ok Xs)
    (hcount : Xs.length ≤ 8) (hXs : ∀ X ∈ Xs, Writable X) :
    WritesBack (mbedtlsRsaWriteKey build rsa) (derKey Xs) :=
  .of_writes (mbedtlsRsaWriteKey_asn1Writes hw hexport hcount hXs)

/-- The element that `mbedtls_rsa_write_pubkey` writes. -/
def derPubkey (rsa : MbedtlsRsaContext w) : ByteString :=
  element asn1ConstructedSequence (derMpis [rsa.E, rsa.N])

theorem mbedtlsRsaWritePubkey_asn1Writes (hw : w = 32 ∨ w = 64) (hN : Writable rsa.N)
    (hE : Writable rsa.E) (p : Asn1Writer) :
    Asn1Writes p (derPubkey rsa) (derPubkey rsa).length (mbedtlsRsaWritePubkey rsa p) := by
  have hXs : ∀ X ∈ [rsa.E, rsa.N], Writable X := by
    simp only [List.mem_cons, List.not_mem_nil, or_false]
    rintro X (rfl | rfl) <;> assumption
  have hlen := length_derMpis_le hw hXs
  unfold mbedtlsRsaWritePubkey derPubkey
  have hsplit : element asn1ConstructedSequence (derMpis [rsa.E, rsa.N]) =
      (asn1ConstructedSequence :: lengthBytes (derMpis [rsa.E, rsa.N]).length) ++
        derMpis [rsa.E, rsa.N] := rfl
  have hseq := fun p => @writeSequence_writes p (derMpis [rsa.E, rsa.N])
    (Nat.lt_of_le_of_lt hlen (by simp))
  generalize hn : (element asn1ConstructedSequence (derMpis [rsa.E, rsa.N])).length = n at hseq ⊢
  rw [hsplit]
  apply writeMpis_writes hw hXs
  rw [Nat.zero_add]
  exact hseq _

theorem mbedtlsRsaWritePubkey_writes (hw : w = 32 ∨ w = 64) (hN : Writable rsa.N)
    (hE : Writable rsa.E) :
    WritesBack (mbedtlsRsaWritePubkey rsa) (derPubkey rsa) :=
  .of_writes (mbedtlsRsaWritePubkey_asn1Writes hw hN hE)

end TfPsaCrypto.RsaDer
