import TfPsaCrypto.Utilities.Asn1Bounds

/-!
# SEQUENCE OF

`mbedtls_asn1_traverse_sequence_of` of `asn1parse.c`, which calls a function on the elements of
a SEQUENCE, and `mbedtls_asn1_get_sequence_of`, which makes a list of them. A position in the
input is an offset from the first `*p`.
-/

namespace TfPsaCrypto

open Bytes

/-! ## Traversal -/

/-- An element as the callback sees it: `p` is where its contents `val` start. -/
structure Asn1Buf where
  tag : UInt8
  p : Nat
  val : ByteString
  deriving DecidableEq, Repr

/-- `tag_must_mask`, `tag_must_val`, `tag_may_mask` and `tag_may_val`. -/
structure Asn1TagMasks where
  mustMask : UInt8
  mustVal : UInt8
  mayMask : UInt8
  mayVal : UInt8
  deriving DecidableEq, Repr

def Asn1TagMasks.Must (m : Asn1TagMasks) (tag : UInt8) : Prop := tag &&& m.mustMask = m.mustVal

def Asn1TagMasks.May (m : Asn1TagMasks) (tag : UInt8) : Prop := tag &&& m.mayMask = m.mayVal

instance (m : Asn1TagMasks) (tag : UInt8) : Decidable (m.Must tag) :=
  inferInstanceAs (Decidable (_ = _))

instance (m : Asn1TagMasks) (tag : UInt8) : Decidable (m.May tag) :=
  inferInstanceAs (Decidable (_ = _))

/-- What the traversal returns: 0, an error of the parser, or what the callback returned.
`endless` is for more rounds than the fuel. -/
inductive Asn1TraverseRet where
  | success
  | asn1 (e : Asn1Error)
  | cb (ret : Int)
  | endless
  deriving DecidableEq, Repr

/-- A traversal: what it returns, `*ctx` after it, the calls of the callback in their order, and
the bytes from `*p` on where it succeeds. -/
structure Asn1Traversal (σ : Type) where
  ret : Asn1TraverseRet
  ctx : σ
  calls : List Asn1Buf
  rest : ByteString

/-- The callback; `none` is a null pointer. -/
abbrev Asn1Callback (σ : Type) := Option (σ → Asn1Buf → Int × σ)

section Traverse

variable {σ : Type} (masks : Asn1TagMasks) (cb : Asn1Callback σ)

/-- The loop of `mbedtls_asn1_traverse_sequence_of`; `stop` is the offset of `end`. -/
def asn1TraverseLoop (stop : Nat) : Nat → σ → ByteString → Asn1Traversal σ
  | _, ctx, [] => { ret := .success, ctx := ctx, calls := [], rest := [] }
  | 0, ctx, input => { ret := .endless, ctx := ctx, calls := [], rest := input }
  | fuel + 1, ctx, tag :: input =>
    if ¬ masks.Must tag then
      { ret := .asn1 .unexpectedTag, ctx := ctx, calls := [], rest := input }
    else
      match mbedtlsAsn1GetLen input with
      | .error e => { ret := .asn1 e, ctx := ctx, calls := [], rest := input }
      | .ok (len, input) =>
        match cb with
        | some call =>
          if masks.May tag then
            let buf := { tag := tag, p := stop - input.length, val := input.take len }
            let (ret, ctx) := call ctx buf
            if ret ≠ 0 then { ret := .cb ret, ctx := ctx, calls := [buf], rest := input }
            else
              let run := asn1TraverseLoop stop fuel ctx (input.drop len)
              { run with calls := buf :: run.calls }
          else asn1TraverseLoop stop fuel ctx (input.drop len)
        | none => asn1TraverseLoop stop fuel ctx (input.drop len)

def asn1SequenceTag : UInt8 := 0x20 ||| 0x10

def mbedtlsAsn1TraverseSequenceOf (fuel : Nat) (ctx : σ) (input : ByteString) :
    Asn1Traversal σ :=
  match mbedtlsAsn1GetTag input asn1SequenceTag with
  | .error e => { ret := .asn1 e, ctx := ctx, calls := [], rest := input }
  | .ok (len, rest) =>
    if len ≠ rest.length then
      { ret := .asn1 .lengthMismatch, ctx := ctx, calls := [], rest := rest }
    else asn1TraverseLoop masks cb input.length fuel ctx rest

end Traverse

/-! ## A list of the elements -/

/-- A node and those after it that `mbedtls_calloc` returned: `buf` is `none` where `buf.p` is
null, and `allocs` is the number of calls of `mbedtls_calloc`. -/
structure MbedtlsAsn1Sequence where
  buf : Option Asn1Buf
  next : List Asn1Buf
  allocs : Nat
  deriving DecidableEq, Repr

def mbedtlsErrAsn1AllocFailed : Int := -141

/-- `alloc i` says whether call `i` of `mbedtls_calloc` succeeds. -/
def asn1GetSequenceOfCb (alloc : Nat → Bool) (cur : MbedtlsAsn1Sequence) (buf : Asn1Buf) :
    Int × MbedtlsAsn1Sequence :=
  match cur.buf with
  | none => (0, { cur with buf := some buf })
  | some _ =>
    if alloc cur.allocs then
      (0, { cur with next := cur.next ++ [buf], allocs := cur.allocs + 1 })
    else (mbedtlsErrAsn1AllocFailed, { cur with allocs := cur.allocs + 1 })

def Asn1TagMasks.only (tag : UInt8) : Asn1TagMasks :=
  { mustMask := 0xFF, mustVal := tag, mayMask := 0, mayVal := 0 }

/-- The head is cleared first. -/
def mbedtlsAsn1GetSequenceOf (alloc : Nat → Bool) (fuel : Nat) (input : ByteString) (tag : UInt8) :
    Asn1Traversal MbedtlsAsn1Sequence :=
  mbedtlsAsn1TraverseSequenceOf (.only tag) (some (asn1GetSequenceOfCb alloc)) fuel
    { buf := none, next := [], allocs := 0 } input

def MbedtlsAsn1Sequence.elements (seq : MbedtlsAsn1Sequence) : List Asn1Buf :=
  seq.buf.toList ++ seq.next

/-! ## What a SEQUENCE OF is -/

structure Asn1Tlv where
  tag : UInt8
  len : ByteString
  val : ByteString
  accepted : Asn1Length val.length len

def Asn1Tlv.bytes (e : Asn1Tlv) : ByteString := e.tag :: (e.len ++ e.val)

def IsSequenceOf (input : ByteString) (es : List Asn1Tlv) : Prop :=
  ∃ len, Asn1Length (es.flatMap Asn1Tlv.bytes).length len ∧
    input = asn1SequenceTag :: (len ++ es.flatMap Asn1Tlv.bytes)

def asn1BufsFrom (start : Nat) : List Asn1Tlv → List Asn1Buf
  | [] => []
  | e :: es =>
    { tag := e.tag, p := start + 1 + e.len.length, val := e.val } ::
      asn1BufsFrom (start + e.bytes.length) es

def asn1Called {σ : Type} (masks : Asn1TagMasks) (cb : Asn1Callback σ) (bufs : List Asn1Buf) :
    List Asn1Buf :=
  if cb.isSome then bufs.filter (fun b => masks.May b.tag) else []

def asn1CallAll {σ : Type} (cb : Asn1Callback σ) : σ → List Asn1Buf → Int × σ
  | ctx, [] => (0, ctx)
  | ctx, b :: bs =>
    match cb with
    | none => (0, ctx)
    | some call => if (call ctx b).1 ≠ 0 then call ctx b else asn1CallAll cb (call ctx b).2 bs

/-! ## The loop -/

section Loop

variable {σ : Type} {masks : Asn1TagMasks} {cb : Asn1Callback σ} {stop fuel : Nat} {ctx : σ}

theorem Asn1Tlv.length_bytes (e : Asn1Tlv) : e.bytes.length = 1 + e.len.length + e.val.length := by
  unfold bytes
  simp only [List.length_cons, List.length_append]
  omega

theorem Asn1Tlv.getLen (e : Asn1Tlv) (tail : ByteString) :
    mbedtlsAsn1GetLen (e.len ++ e.val ++ tail) = .ok (e.val.length, e.val ++ tail) := by
  rw [mbedtlsAsn1GetLen_iff]
  refine ⟨e.len, e.accepted, List.append_assoc _ _ _, ?_⟩
  rw [List.length_append]
  omega

theorem asn1TraverseLoop_element (e : Asn1Tlv) (tail : ByteString) (hmust : masks.Must e.tag) :
    asn1TraverseLoop masks cb stop (fuel + 1) ctx (e.bytes ++ tail) =
      match cb with
      | some call =>
        if masks.May e.tag then
          let buf := { tag := e.tag, p := stop - (e.val ++ tail).length, val := e.val }
          let result := call ctx buf
          if result.1 ≠ 0 then
            { ret := .cb result.1, ctx := result.2, calls := [buf], rest := e.val ++ tail }
          else
            let run := asn1TraverseLoop masks (some call) stop fuel result.2 tail
            { run with calls := buf :: run.calls }
        else asn1TraverseLoop masks (some call) stop fuel ctx tail
      | none => asn1TraverseLoop masks none stop fuel ctx tail := by
  have hget := e.getLen tail
  unfold Asn1Tlv.bytes
  rw [List.cons_append]
  conv_lhs => unfold asn1TraverseLoop
  rw [if_neg (not_not.mpr hmust), hget]
  simp only [List.take_left, List.drop_left]
  cases cb <;> rfl

theorem asn1TraverseLoop_cons {tag : UInt8} {input : ByteString}
    (h : (asn1TraverseLoop masks cb stop (fuel + 1) ctx (tag :: input)).ret = .success) :
    ∃ (e : Asn1Tlv) (tail : ByteString), tag :: input = e.bytes ++ tail ∧ masks.Must e.tag := by
  unfold asn1TraverseLoop at h
  split at h
  · cases h
  next hmust =>
  split at h
  · cases h
  next len rest hget =>
  obtain ⟨bs, haccept, hinput, hle⟩ := mbedtlsAsn1GetLen_iff.mp hget
  have hlen : (rest.take len).length = len := List.length_take_of_le hle
  refine ⟨⟨tag, bs, rest.take len, by rw [hlen]; exact haccept⟩, rest.drop len, ?_,
    not_not.mp hmust⟩
  unfold Asn1Tlv.bytes
  rw [List.cons_append, List.append_assoc, List.take_append_drop, hinput]

theorem asn1Called_some (call : σ → Asn1Buf → Int × σ) (bufs : List Asn1Buf) :
    asn1Called masks (some call) bufs = bufs.filter (fun b => masks.May b.tag) := rfl

theorem asn1Called_nil : asn1Called masks cb [] = [] := by
  unfold asn1Called
  split <;> rfl

structure Asn1Traversed (masks : Asn1TagMasks) (cb : Asn1Callback σ) (ctx : σ) (start : Nat)
    (es : List Asn1Tlv) (run : Asn1Traversal σ) : Prop where
  must : ∀ e ∈ es, masks.Must e.tag
  calls : run.calls = asn1Called masks cb (asn1BufsFrom start es)
  callbacks : asn1CallAll cb ctx (asn1Called masks cb (asn1BufsFrom start es)) = (0, run.ctx)
  rest : run.rest = []

theorem asn1TraverseLoop_sound {input : ByteString} (hstop : input.length ≤ stop)
    (h : (asn1TraverseLoop masks cb stop fuel ctx input).ret = .success) :
    ∃ es, input = es.flatMap Asn1Tlv.bytes ∧
      Asn1Traversed masks cb ctx (stop - input.length) es
        (asn1TraverseLoop masks cb stop fuel ctx input) := by
  induction fuel generalizing ctx input with
  | zero =>
    rcases input with _ | ⟨tag, input⟩
    · refine ⟨[], rfl, by simp, ?_, ?_, rfl⟩
      · rw [asn1BufsFrom, asn1Called_nil]
        rfl
      · rw [asn1BufsFrom, asn1Called_nil]
        rfl
    · cases h
  | succ fuel ih =>
    rcases input with _ | ⟨tag, input⟩
    · refine ⟨[], rfl, by simp, ?_, ?_, rfl⟩
      · rw [asn1BufsFrom, asn1Called_nil]
        rfl
      · rw [asn1BufsFrom, asn1Called_nil]
        rfl
    · obtain ⟨e, tail, hinput, hmust⟩ := asn1TraverseLoop_cons h
      rw [hinput] at h hstop ⊢
      have hlen := e.length_bytes
      rw [List.length_append] at hstop
      have hp : stop - (e.bytes ++ tail).length + 1 + e.len.length =
          stop - (e.val ++ tail).length := by
        rw [List.length_append, List.length_append]
        omega
      have hnext : stop - (e.bytes ++ tail).length + e.bytes.length = stop - tail.length := by
        rw [List.length_append]
        omega
      rw [asn1TraverseLoop_element e tail hmust] at h ⊢
      -- the elements after the first one
      have hcons : ∀ {es : List Asn1Tlv} {run : Asn1Traversal σ} {ctx' : σ},
          Asn1Traversed masks cb ctx' (stop - tail.length) es run →
          ∀ e' ∈ e :: es, masks.Must e'.tag := by
        intro es run ctx' htrav e' he'
        rcases List.mem_cons.mp he' with rfl | hmem
        · exact hmust
        · exact htrav.must e' hmem
      cases cb with
      | none =>
        obtain ⟨es, htail, htrav⟩ := ih (by omega) h
        refine ⟨e :: es, by rw [List.flatMap_cons, ← htail], hcons htrav, ?_, ?_, htrav.rest⟩
        · rw [htrav.calls]
          rfl
        · exact htrav.callbacks
      | some call =>
        simp only at h ⊢
        by_cases hmay : masks.May e.tag
        · simp only [if_pos hmay] at h ⊢
          split at h
          · cases h
          next hzero =>
          rw [if_neg hzero]
          obtain ⟨es, htail, htrav⟩ := ih (by omega) h
          have hcalled : asn1Called masks (some call)
              (asn1BufsFrom (stop - (e.bytes ++ tail).length) (e :: es)) =
              { tag := e.tag, p := stop - (e.val ++ tail).length, val := e.val } ::
                asn1Called masks (some call) (asn1BufsFrom (stop - tail.length) es) := by
            rw [asn1BufsFrom, hp, hnext]
            rw [asn1Called_some, asn1Called_some, List.filter_cons_of_pos (by simpa using hmay)]
          refine ⟨e :: es, by rw [List.flatMap_cons, ← htail], hcons htrav, ?_, ?_, htrav.rest⟩
          · rw [hcalled, ← htrav.calls]
          · rw [hcalled]
            unfold asn1CallAll
            simp only [if_neg hzero]
            exact htrav.callbacks
        · rw [if_neg hmay] at h ⊢
          obtain ⟨es, htail, htrav⟩ := ih (by omega) h
          have hcalled : asn1Called masks (some call)
              (asn1BufsFrom (stop - (e.bytes ++ tail).length) (e :: es)) =
                asn1Called masks (some call) (asn1BufsFrom (stop - tail.length) es) := by
            rw [asn1BufsFrom, hnext]
            rw [asn1Called_some, asn1Called_some, List.filter_cons_of_neg (by simpa using hmay)]
          refine ⟨e :: es, by rw [List.flatMap_cons, ← htail], hcons htrav, ?_, ?_, htrav.rest⟩
          · rw [hcalled]
            exact htrav.calls
          · rw [hcalled]
            exact htrav.callbacks

theorem asn1TraverseLoop_complete {es : List Asn1Tlv} (hmust : ∀ e ∈ es, masks.Must e.tag)
    (hstop : (es.flatMap Asn1Tlv.bytes).length ≤ stop)
    (hcalls : (asn1CallAll cb ctx (asn1Called masks cb
      (asn1BufsFrom (stop - (es.flatMap Asn1Tlv.bytes).length) es))).1 = 0)
    (hfuel : (es.flatMap Asn1Tlv.bytes).length ≤ fuel) :
    (asn1TraverseLoop masks cb stop fuel ctx (es.flatMap Asn1Tlv.bytes)).ret = .success := by
  induction es generalizing ctx fuel with
  | nil => cases fuel <;> rfl
  | cons e es ih =>
    have hlen := e.length_bytes
    rw [List.flatMap_cons] at hstop hfuel hcalls ⊢
    rw [List.length_append] at hstop hfuel
    obtain ⟨fuel, rfl⟩ := Nat.exists_eq_succ_of_ne_zero (n := fuel) (by omega)
    have hp : stop - (e.bytes ++ es.flatMap Asn1Tlv.bytes).length + 1 + e.len.length =
        stop - (e.val ++ es.flatMap Asn1Tlv.bytes).length := by
      rw [List.length_append, List.length_append]
      omega
    have hnext : stop - (e.bytes ++ es.flatMap Asn1Tlv.bytes).length + e.bytes.length =
        stop - (es.flatMap Asn1Tlv.bytes).length := by
      rw [List.length_append]
      omega
    have hmust' := fun e' he' => hmust e' (List.mem_cons_of_mem _ he')
    rw [asn1BufsFrom, hp, hnext] at hcalls
    rw [Nat.succ_eq_add_one, asn1TraverseLoop_element e _ (hmust e List.mem_cons_self)]
    cases cb with
    | none => exact ih hmust' (by omega) (by cases es <;> rfl) (by omega)
    | some call =>
      rw [asn1Called_some] at hcalls
      by_cases hmay : masks.May e.tag
      · rw [List.filter_cons_of_pos (by simpa using hmay)] at hcalls
        unfold asn1CallAll at hcalls
        simp only at hcalls
        simp only [if_pos hmay]
        split at hcalls
        · next hne => exact absurd hcalls hne
        next hzero =>
        rw [if_neg hzero]
        refine ih hmust' (by omega) ?_ (by omega)
        rw [asn1Called_some]
        exact hcalls
      · rw [List.filter_cons_of_neg (by simpa using hmay)] at hcalls
        simp only [if_neg hmay]
        refine ih hmust' (by omega) ?_ (by omega)
        rw [asn1Called_some]
        exact hcalls

/-- Whatever the outcome: the loop ends, no byte from `end` on is read, and what the callback
gets lies in the input. -/
theorem asn1TraverseLoop_inBounds (ctx : σ) {total input : ByteString} {start : Nat}
    (htotal : total.drop start = input) (hstart : start ≤ total.length)
    (hfuel : input.length ≤ fuel) :
    (asn1TraverseLoop masks cb total.length fuel ctx input).ret ≠ .endless ∧
      (asn1TraverseLoop masks cb total.length fuel ctx input).ret ≠ .asn1 .outOfBounds ∧
      ∀ b ∈ (asn1TraverseLoop masks cb total.length fuel ctx input).calls,
        b.p + b.val.length ≤ total.length ∧ b.val = (total.drop b.p).take b.val.length := by
  induction fuel generalizing ctx input start with
  | zero =>
    obtain rfl := List.eq_nil_of_length_eq_zero (Nat.le_zero.mp hfuel)
    exact ⟨by simp [asn1TraverseLoop], by simp [asn1TraverseLoop], by simp [asn1TraverseLoop]⟩
  | succ fuel ih =>
    rcases input with _ | ⟨tag, input⟩
    · exact ⟨by simp [asn1TraverseLoop], by simp [asn1TraverseLoop], by simp [asn1TraverseLoop]⟩
    unfold asn1TraverseLoop
    split
    · exact ⟨by simp, by simp, by simp⟩
    split
    · next err hget =>
      have hbounds := mbedtlsAsn1GetLen_inBounds input
      rw [hget] at hbounds
      refine ⟨by simp, ?_, by simp⟩
      simpa using hbounds
    · next len rest hget =>
      obtain ⟨bs, _, hinput, hle⟩ := mbedtlsAsn1GetLen_iff.mp hget
      have htlen : total.length = start + (1 + bs.length + rest.length) := by
        have h := congrArg List.length htotal
        rw [List.length_drop, List.length_cons, hinput, List.length_append] at h
        omega
      have hrest : total.drop (start + 1 + bs.length) = rest := by
        rw [Nat.add_assoc, ← List.drop_drop, htotal, Nat.add_comm 1, List.drop_succ_cons,
          hinput, List.drop_left]
      have hnext : total.drop (start + 1 + bs.length + len) = rest.drop len := by
        rw [← List.drop_drop, hrest]
      rw [List.length_cons, hinput, List.length_append] at hfuel
      have hrec := fun ctx' : σ => ih ctx' hnext (by omega) (by rw [List.length_drop]; omega)
      cases cb with
      | none => exact hrec ctx
      | some call =>
        simp only
        split
        · have hbuf : (total.length - rest.length) + (rest.take len).length ≤
              total.length ∧
              rest.take len = (total.drop (total.length - rest.length)).take
                (rest.take len).length := by
            have hat : total.length - rest.length = start + 1 + bs.length := by omega
            rw [hat, hrest, List.length_take_of_le hle]
            exact ⟨by omega, rfl⟩
          split
          · refine ⟨by simp, by simp, ?_⟩
            intro b hb
            rw [List.mem_singleton.mp hb]
            exact hbuf
          · obtain ⟨hend, hbound, hcalls⟩ := hrec _
            refine ⟨hend, hbound, ?_⟩
            intro b hb
            rcases List.mem_cons.mp hb with rfl | hmem
            · exact hbuf
            · exact hcalls b hmem
        · exact hrec ctx

theorem asn1TraverseLoop_ctx {P : σ → Prop} {call : σ → Asn1Buf → Int × σ}
    (hstep : ∀ ctx b, P ctx → P (call ctx b).2) {input : ByteString} (h : P ctx) :
    P (asn1TraverseLoop masks (some call) stop fuel ctx input).ctx := by
  induction fuel generalizing ctx input with
  | zero => cases input <;> exact h
  | succ fuel ih =>
    rcases input with _ | ⟨tag, input⟩
    · exact h
    unfold asn1TraverseLoop
    split
    · exact h
    split
    · exact h
    simp only
    split
    · split
      · exact hstep _ _ h
      · exact ih (hstep _ _ h)
    · exact ih h

end Loop

/-! ## Acceptance -/

section Traverse

variable {σ : Type} {masks : Asn1TagMasks} {cb : Asn1Callback σ} {fuel : Nat} {ctx : σ}
  {input : ByteString}

def asn1ContentsStart (input : ByteString) (es : List Asn1Tlv) : Nat :=
  input.length - (es.flatMap Asn1Tlv.bytes).length

theorem mbedtlsAsn1TraverseSequenceOf_sound
    (h : (mbedtlsAsn1TraverseSequenceOf masks cb fuel ctx input).ret = .success) :
    ∃ es, IsSequenceOf input es ∧ Asn1Traversed masks cb ctx (asn1ContentsStart input es) es
      (mbedtlsAsn1TraverseSequenceOf masks cb fuel ctx input) := by
  unfold mbedtlsAsn1TraverseSequenceOf at h ⊢
  rcases htag : mbedtlsAsn1GetTag input asn1SequenceTag with err | ⟨len, rest⟩
  · rw [htag] at h
    cases h
  rw [htag] at h
  simp only at h ⊢
  split at h
  · cases h
  next hlen =>
  rw [not_not] at hlen
  rw [if_neg (not_not.mpr hlen)]
  obtain ⟨bs, haccept, hinput, _⟩ := mbedtlsAsn1GetTag_iff.mp htag
  have hstop : rest.length ≤ input.length := by
    rw [hinput, List.length_cons, List.length_append]
    omega
  obtain ⟨es, hrest, htrav⟩ := asn1TraverseLoop_sound hstop h
  refine ⟨es, ⟨bs, ?_, ?_⟩, ?_⟩
  · rw [← hrest, ← hlen]
    exact haccept
  · rw [← hrest]
    exact hinput
  · unfold asn1ContentsStart
    rw [← hrest]
    exact htrav

theorem mbedtlsAsn1TraverseSequenceOf_complete {es : List Asn1Tlv} (hes : IsSequenceOf input es)
    (hmust : ∀ e ∈ es, masks.Must e.tag)
    (hcalls : (asn1CallAll cb ctx (asn1Called masks cb
      (asn1BufsFrom (asn1ContentsStart input es) es))).1 = 0) (hfuel : input.length ≤ fuel) :
    (mbedtlsAsn1TraverseSequenceOf masks cb fuel ctx input).ret = .success := by
  obtain ⟨bs, haccept, hinput⟩ := hes
  have htag : mbedtlsAsn1GetTag input asn1SequenceTag =
      .ok ((es.flatMap Asn1Tlv.bytes).length, es.flatMap Asn1Tlv.bytes) :=
    mbedtlsAsn1GetTag_iff.mpr ⟨bs, haccept, hinput, Nat.le_refl _⟩
  have hlength : (es.flatMap Asn1Tlv.bytes).length ≤ input.length := by
    rw [hinput, List.length_cons, List.length_append]
    omega
  unfold mbedtlsAsn1TraverseSequenceOf
  rw [htag]
  simp only [ne_eq, not_true_eq_false, if_false]
  exact asn1TraverseLoop_complete hmust hlength hcalls (Nat.le_trans hlength hfuel)

theorem mbedtlsAsn1TraverseSequenceOf_inBounds (masks : Asn1TagMasks) (cb : Asn1Callback σ)
    (ctx : σ) (hfuel : input.length ≤ fuel) :
    (mbedtlsAsn1TraverseSequenceOf masks cb fuel ctx input).ret ≠ .endless ∧
      (mbedtlsAsn1TraverseSequenceOf masks cb fuel ctx input).ret ≠ .asn1 .outOfBounds ∧
      ∀ b ∈ (mbedtlsAsn1TraverseSequenceOf masks cb fuel ctx input).calls,
        b.p + b.val.length ≤ input.length ∧ b.val = (input.drop b.p).take b.val.length := by
  have htagBounds := mbedtlsAsn1GetTag_inBounds input asn1SequenceTag
  unfold mbedtlsAsn1TraverseSequenceOf
  rcases htag : mbedtlsAsn1GetTag input asn1SequenceTag with err | ⟨len, rest⟩
  · rw [htag] at htagBounds
    refine ⟨by simp, ?_, by simp⟩
    simpa using htagBounds
  simp only
  split
  · exact ⟨by simp, by simp, by simp⟩
  obtain ⟨bs, _, hinput, _⟩ := mbedtlsAsn1GetTag_iff.mp htag
  have hlength : input.length = 1 + bs.length + rest.length := by
    rw [hinput, List.length_cons, List.length_append]
    omega
  have hdrop : input.drop (1 + bs.length) = rest := by
    rw [hinput, Nat.add_comm, List.drop_succ_cons, List.drop_left]
  exact asn1TraverseLoop_inBounds ctx hdrop (by omega) (by omega)

end Traverse

/-! ## The list -/

section List

variable {alloc : Nat → Bool} {fuel : Nat} {input : ByteString} {tag : UInt8}

theorem asn1TagMasks_only_must (tag t : UInt8) : (Asn1TagMasks.only t).Must tag ↔ tag = t := by
  unfold Asn1TagMasks.Must Asn1TagMasks.only
  have hmask : tag &&& 0xFF = tag := by
    apply UInt8.toNat_inj.mp
    rw [UInt8.toNat_and]
    exact Nat.and_two_pow_sub_one_of_lt_two_pow (n := 8) tag.toNat_lt
  rw [hmask]

theorem asn1Called_only (call : MbedtlsAsn1Sequence → Asn1Buf → Int × MbedtlsAsn1Sequence)
    (t : UInt8) (bufs : List Asn1Buf) :
    asn1Called (Asn1TagMasks.only t) (some call) bufs = bufs := by
  rw [asn1Called_some, List.filter_eq_self]
  intro b _
  have hmay : (Asn1TagMasks.only t).May b.tag := by
    unfold Asn1TagMasks.May Asn1TagMasks.only
    simp
  simpa using hmay

theorem asn1CallAll_getSequenceOfCb {cur : MbedtlsAsn1Sequence} (hcur : cur.buf ≠ none)
    (bufs : List Asn1Buf) :
    ((asn1CallAll (some (asn1GetSequenceOfCb alloc)) cur bufs).1 = 0 ↔
        ∀ i, i < bufs.length → alloc (cur.allocs + i) = true) ∧
      ((asn1CallAll (some (asn1GetSequenceOfCb alloc)) cur bufs).1 = 0 →
        (asn1CallAll (some (asn1GetSequenceOfCb alloc)) cur bufs).2.elements =
          cur.elements ++ bufs) := by
  induction bufs generalizing cur with
  | nil =>
    refine ⟨⟨fun _ i hi => absurd hi (by simp), fun _ => rfl⟩, fun _ => ?_⟩
    rw [List.append_nil]
    rfl
  | cons b bs ih =>
    obtain ⟨first, hfirst⟩ := Option.ne_none_iff_exists'.mp hcur
    unfold asn1CallAll
    simp only
    by_cases halloc : alloc cur.allocs = true
    · have hcb : asn1GetSequenceOfCb alloc cur b =
          (0, { cur with next := cur.next ++ [b], allocs := cur.allocs + 1 }) := by
        unfold asn1GetSequenceOfCb
        rw [hfirst]
        simp only [if_pos halloc]
      rw [hcb]
      simp only [ne_eq, not_true_eq_false, if_false]
      obtain ⟨hiff, helems⟩ := @ih
        { cur with next := cur.next ++ [b], allocs := cur.allocs + 1 } hcur
      refine ⟨hiff.trans ⟨?_, ?_⟩, fun h => ?_⟩
      · intro h i hi
        cases i with
        | zero => exact halloc
        | succ i =>
          have hi' := h i (by simpa using hi)
          rwa [Nat.add_assoc, Nat.add_comm 1] at hi'
      · intro h i hi
        have hi' := h (i + 1) (by simpa using hi)
        rwa [Nat.add_comm i, ← Nat.add_assoc] at hi'
      · rw [helems h]
        unfold MbedtlsAsn1Sequence.elements
        simp
    · have hcb : asn1GetSequenceOfCb alloc cur b =
          (mbedtlsErrAsn1AllocFailed, { cur with allocs := cur.allocs + 1 }) := by
        unfold asn1GetSequenceOfCb
        rw [hfirst]
        simp only [if_neg halloc]
      have hne : mbedtlsErrAsn1AllocFailed ≠ 0 := by decide
      rw [hcb]
      refine ⟨⟨fun h => absurd h hne, fun h => ?_⟩, fun h => absurd h hne⟩
      exact absurd (h 0 (by simp)) halloc

/-- The nodes that are linked: as many as calls of `mbedtls_calloc` have succeeded. -/
def MbedtlsAsn1Sequence.AllLinked (alloc : Nat → Bool) (seq : MbedtlsAsn1Sequence) : Prop :=
  seq.next.length = ((List.range seq.allocs).filter alloc).length

theorem allLinked_asn1GetSequenceOfCb {cur : MbedtlsAsn1Sequence} (b : Asn1Buf)
    (h : cur.AllLinked alloc) : (asn1GetSequenceOfCb alloc cur b).2.AllLinked alloc := by
  unfold MbedtlsAsn1Sequence.AllLinked at h ⊢
  unfold asn1GetSequenceOfCb
  split
  · exact h
  · split
    · next halloc => simp [List.range_succ, halloc, h]
    · next hfail => simp [List.range_succ, hfail, h]

theorem mbedtlsAsn1GetSequenceOf_spec (hfuel : input.length ≤ fuel) :
    ((mbedtlsAsn1GetSequenceOf alloc fuel input tag).ret = .success →
      ∃ es, IsSequenceOf input es ∧ (∀ e ∈ es, e.tag = tag) ∧
        (mbedtlsAsn1GetSequenceOf alloc fuel input tag).ctx.elements =
          asn1BufsFrom (asn1ContentsStart input es) es) ∧
    (∀ es, IsSequenceOf input es → (∀ e ∈ es, e.tag = tag) →
      (∀ i, i + 1 < es.length → alloc i = true) →
      (mbedtlsAsn1GetSequenceOf alloc fuel input tag).ret = .success) ∧
    (mbedtlsAsn1GetSequenceOf alloc fuel input tag).ctx.AllLinked alloc := by
  have hlength : ∀ (start : Nat) (es : List Asn1Tlv),
      (asn1BufsFrom start es).length = es.length := by
    intro start es
    induction es generalizing start with
    | nil => rfl
    | cons e es ih => rw [asn1BufsFrom, List.length_cons, List.length_cons, ih]
  -- the first element fills the head
  have hall : ∀ bufs : List Asn1Buf,
      ((asn1CallAll (some (asn1GetSequenceOfCb alloc))
        { buf := none, next := [], allocs := 0 } bufs).1 = 0 ↔
          ∀ i, i + 1 < bufs.length → alloc i = true) ∧
      ((asn1CallAll (some (asn1GetSequenceOfCb alloc))
        { buf := none, next := [], allocs := 0 } bufs).1 = 0 →
        (asn1CallAll (some (asn1GetSequenceOfCb alloc))
          { buf := none, next := [], allocs := 0 } bufs).2.elements = bufs) := by
    intro bufs
    cases bufs with
    | nil => exact ⟨⟨fun _ i hi => absurd hi (by simp), fun _ => rfl⟩, fun _ => rfl⟩
    | cons b bs =>
      obtain ⟨hiff, helems⟩ := @asn1CallAll_getSequenceOfCb alloc
        { buf := some b, next := [], allocs := 0 } (Option.some_ne_none b) bs
      simp only [Nat.zero_add] at hiff
      refine ⟨hiff.trans ⟨?_, ?_⟩, fun h => helems h⟩
      · intro h i hi
        exact h i (by simpa using hi)
      · intro h i hi
        exact h i (by simpa using hi)
  refine ⟨?_, ?_, ?_⟩
  · intro h
    obtain ⟨es, hes, htrav⟩ := mbedtlsAsn1TraverseSequenceOf_sound h
    have hcalls := htrav.callbacks
    rw [asn1Called_only] at hcalls
    refine ⟨es, hes, fun e he => (asn1TagMasks_only_must _ _).mp (htrav.must e he), ?_⟩
    have helems := (hall _).2 (congrArg Prod.fst hcalls)
    rw [hcalls] at helems
    exact helems
  · intro es hes htags halloc
    apply mbedtlsAsn1TraverseSequenceOf_complete hes
      (fun e he => (asn1TagMasks_only_must _ _).mpr (htags e he)) _ hfuel
    rw [asn1Called_only, (hall _).1, hlength]
    exact halloc
  · unfold mbedtlsAsn1GetSequenceOf mbedtlsAsn1TraverseSequenceOf
    have hstart : (⟨none, [], 0⟩ : MbedtlsAsn1Sequence).AllLinked alloc := rfl
    split
    · exact hstart
    · split
      · exact hstart
      · exact asn1TraverseLoop_ctx (fun _ b h => allLinked_asn1GetSequenceOfCb b h) hstart

end List

/-- The traversal accepts exactly a SEQUENCE of complete elements with tags that are not
excluded, the callback getting those it is for; and the list of the elements of one tag. -/
theorem mbedtlsAsn1TraverseSequenceOf_iff {σ : Type} (masks : Asn1TagMasks) (cb : Asn1Callback σ)
    (ctx : σ) (alloc : Nat → Bool) (tag : UInt8) {fuel : Nat} {input : ByteString}
    (hfuel : input.length ≤ fuel) :
    (((mbedtlsAsn1TraverseSequenceOf masks cb fuel ctx input).ret = .success ↔
      ∃ es, IsSequenceOf input es ∧ (∀ e ∈ es, masks.Must e.tag) ∧
        (asn1CallAll cb ctx (asn1Called masks cb
          (asn1BufsFrom (asn1ContentsStart input es) es))).1 = 0) ∧
    ((mbedtlsAsn1TraverseSequenceOf masks cb fuel ctx input).ret = .success →
      ∃ es, IsSequenceOf input es ∧ Asn1Traversed masks cb ctx (asn1ContentsStart input es) es
        (mbedtlsAsn1TraverseSequenceOf masks cb fuel ctx input)) ∧
    (mbedtlsAsn1TraverseSequenceOf masks cb fuel ctx input).ret ≠ .endless ∧
    (mbedtlsAsn1TraverseSequenceOf masks cb fuel ctx input).ret ≠ .asn1 .outOfBounds ∧
    ∀ b ∈ (mbedtlsAsn1TraverseSequenceOf masks cb fuel ctx input).calls,
      b.p + b.val.length ≤ input.length ∧ b.val = (input.drop b.p).take b.val.length) ∧
    (((mbedtlsAsn1GetSequenceOf alloc fuel input tag).ret = .success →
      ∃ es, IsSequenceOf input es ∧ (∀ e ∈ es, e.tag = tag) ∧
        (mbedtlsAsn1GetSequenceOf alloc fuel input tag).ctx.elements =
          asn1BufsFrom (asn1ContentsStart input es) es) ∧
    (∀ es, IsSequenceOf input es → (∀ e ∈ es, e.tag = tag) →
      (∀ i, i + 1 < es.length → alloc i = true) →
      (mbedtlsAsn1GetSequenceOf alloc fuel input tag).ret = .success) ∧
    (mbedtlsAsn1GetSequenceOf alloc fuel input tag).ctx.AllLinked alloc) := by
  obtain ⟨hend, hbound, hcalls⟩ := mbedtlsAsn1TraverseSequenceOf_inBounds masks cb ctx hfuel
  refine ⟨⟨⟨?_, ?_⟩, mbedtlsAsn1TraverseSequenceOf_sound, hend, hbound, hcalls⟩,
    mbedtlsAsn1GetSequenceOf_spec hfuel⟩
  · intro h
    obtain ⟨es, hes, htrav⟩ := mbedtlsAsn1TraverseSequenceOf_sound h
    exact ⟨es, hes, htrav.must, congrArg Prod.fst htrav.callbacks⟩
  · rintro ⟨es, hes, hmust, hzero⟩
    exact mbedtlsAsn1TraverseSequenceOf_complete hes hmust hzero hfuel

/-- Two empty OCTET STRINGs. -/
theorem mbedtlsAsn1TraverseSequenceOf_iff_octets :
    ∃ es, IsSequenceOf [0x30, 4, 4, 0, 4, 0] es ∧ (∀ e ∈ es, e.tag = 4) ∧
      (mbedtlsAsn1GetSequenceOf (fun _ => true) 6 [0x30, 4, 4, 0, 4, 0] 4).ctx.elements =
        asn1BufsFrom (asn1ContentsStart [0x30, 4, 4, 0, 4, 0] es) es :=
  (mbedtlsAsn1TraverseSequenceOf_iff (.only 4) none () (fun _ => true) 4
    (show ([0x30, 4, 4, 0, 4, 0] : ByteString).length ≤ 6 by decide)).2.1 (by decide)

/-- A NULL where the callback is for OCTET STRINGs is accepted without a call; a third element of
another tag leaves the node of the second one allocated. -/
theorem mbedtlsAsn1TraverseSequenceOf_ignores_other_tags :
    (mbedtlsAsn1TraverseSequenceOf { mustMask := 0, mustVal := 0, mayMask := 0xFF, mayVal := 4 }
        (some fun (calls : Nat) _ => (0, calls + 1)) 4 0 [0x30, 2, 5, 0]).ret = .success ∧
      ¬ Asn1TagMasks.May { mustMask := 0, mustVal := 0, mayMask := 0xFF, mayVal := 4 } 5 ∧
      (mbedtlsAsn1TraverseSequenceOf { mustMask := 0, mustVal := 0, mayMask := 0xFF, mayVal := 4 }
        (some fun (calls : Nat) _ => (0, calls + 1)) 4 0 [0x30, 2, 5, 0]).ctx = 0 ∧
      (mbedtlsAsn1GetSequenceOf (fun _ => true) 8 [0x30, 6, 4, 0, 4, 0, 5, 0] 4).ret =
        .asn1 .unexpectedTag ∧
      (mbedtlsAsn1GetSequenceOf (fun _ => true) 8 [0x30, 6, 4, 0, 4, 0, 5, 0] 4).ctx.next.length =
        1 := by
  decide

end TfPsaCrypto
