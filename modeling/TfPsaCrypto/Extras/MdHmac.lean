import TfPsaCrypto.Library.Multipart
import TfPsaCrypto.Library.Hmac
import TfPsaCrypto.Core.Types

/-!
# HMAC in the message digest module

`mbedtls_md_hmac_*` of `md.c`. The hash is any multipart function. A context holds the state
of the hash and, behind `hmac_ctx`, the two pads in one buffer; a message that is given up or
finished leaves the pads, so that `mbedtls_md_hmac_reset` can start the next one.
-/

namespace TfPsaCrypto.MdHmac

open Bytes (ByteString storeAt storeAt_middle)
open Fallible (update fail)

/-! ## Contexts -/

structure MdInfo (σ : Type) extends Multipart σ PsaStatus where
  size : Nat
  blockSize : Nat
  /-- The state behind a fresh allocation. -/
  init : σ

/-- `none` is a null pointer. -/
structure MdContext (σ : Type) where
  mdInfo : Option (MdInfo σ)
  mdCtx : σ
  hmacCtx : Option ByteString

variable {σ : Type}

def badInputData : PsaStatus := .errorInvalidArgument

def allocFailed : PsaStatus := .errorInsufficientMemory

def onHash {α : Type} (call : MdInfo σ → Fallible σ PsaStatus α) :
    Fallible (MdContext σ) PsaStatus α := fun ctx =>
  match ctx.mdInfo with
  | none => (.error badInputData, ctx)
  | some info => ((call info ctx.mdCtx).1, { ctx with mdCtx := (call info ctx.mdCtx).2 })

def mdStarts : Fallible (MdContext σ) PsaStatus Unit := onHash fun info => info.starts

def mdUpdate (input : ByteString) : Fallible (MdContext σ) PsaStatus Unit :=
  onHash fun info => info.update input

def mdFinish : Fallible (MdContext σ) PsaStatus ByteString := onHash fun info => info.finish

/-! ## The calls -/

/-- `mbedtls_xor` with the part of a buffer from `off` on as the first operand and the output. -/
def mbedtlsXor (buffer : ByteString) (off : Nat) (key : ByteString) : ByteString :=
  storeAt buffer off (Bytes.xor (buffer.drop off) key)

/-- The buffer behind `hmac_ctx` for a key of at most one block. -/
def hmacPads (blockSize : Nat) (hmacCtx key : ByteString) : ByteString :=
  let hmacCtx := storeAt hmacCtx 0 (List.replicate blockSize 0x36)
  let hmacCtx := storeAt hmacCtx blockSize (List.replicate blockSize 0x5C)
  let hmacCtx := mbedtlsXor hmacCtx 0 key
  mbedtlsXor hmacCtx blockSize key

/-- The key that `mbedtls_md_hmac_starts` uses: a key longer than a block is hashed. -/
def mdHmacKey (info : MdInfo σ) (key : ByteString) :
    Fallible (MdContext σ) PsaStatus ByteString :=
  if info.blockSize < key.length then do
    mdStarts
    mdUpdate key
    let sum ← mdFinish
    return sum.take info.size
  else return key

def withHmac {α : Type} (call : MdInfo σ → ByteString → Fallible (MdContext σ) PsaStatus α) :
    Fallible (MdContext σ) PsaStatus α := fun ctx =>
  match ctx.mdInfo, ctx.hmacCtx with
  | some info, some hmacCtx => call info hmacCtx ctx
  | _, _ => (.error badInputData, ctx)

def mdHmacStarts (key : ByteString) : Fallible (MdContext σ) PsaStatus Unit :=
  withHmac fun info hmacCtx => do
    let key ← mdHmacKey info key
    let hmacCtx := hmacPads info.blockSize hmacCtx key
    update fun ctx => { ctx with hmacCtx := some hmacCtx }
    mdStarts
    mdUpdate (hmacCtx.take info.blockSize)

def mdHmacUpdate (input : ByteString) : Fallible (MdContext σ) PsaStatus Unit :=
  withHmac fun _ _ => mdUpdate input

def mdHmacFinish : Fallible (MdContext σ) PsaStatus ByteString :=
  withHmac fun info hmacCtx => do
    let tmp ← mdFinish
    mdStarts
    mdUpdate ((hmacCtx.drop info.blockSize).take info.blockSize)
    mdUpdate (tmp.take info.size)
    mdFinish

def mdHmacReset : Fallible (MdContext σ) PsaStatus Unit :=
  withHmac fun info hmacCtx => do
    mdStarts
    mdUpdate (hmacCtx.take info.blockSize)

/-- `allocated` tells whether there is memory for the state of the hash. -/
def mdSetup (mdInfo : Option (MdInfo σ)) (hmac allocated : Bool) :
    Fallible (MdContext σ) PsaStatus Unit :=
  match mdInfo with
  | none => fail badInputData
  | some info => do
    update fun ctx => { ctx with mdInfo := some info, hmacCtx := none }
    if hmac then fail badInputData
    else if allocated then update fun ctx => { ctx with mdCtx := info.init }
    else fail allocFailed

def mdHmacSetup (info : MdInfo σ) (allocated : Bool) : Fallible (MdContext σ) PsaStatus Unit :=
  if allocated then
    update fun ctx => { ctx with hmacCtx := some (List.replicate (2 * info.blockSize) 0) }
  else fail allocFailed

/-- `mdAllocated` and `hmacAllocated` are the results of its allocations. -/
def mdHmac (mdInfo : Option (MdInfo σ)) (mdAllocated hmacAllocated : Bool)
    (key input : ByteString) : Except PsaStatus ByteString :=
  match mdInfo with
  | none => .error badInputData
  | some info =>
    let ctx : MdContext σ := { mdInfo := none, mdCtx := info.init, hmacCtx := none }
    let body : Fallible (MdContext σ) PsaStatus ByteString := do
      mdSetup (some info) false mdAllocated
      mdHmacSetup info hmacAllocated
      mdHmacStarts key
      mdHmacUpdate input
      mdHmacFinish
    (body ctx).1

/-! ## The pads -/

theorem xor_constant (c : UInt8) (key rest : ByteString) :
    Bytes.xor (List.replicate key.length c ++ rest) key = key.map (· ^^^ c) := by
  induction key with
  | nil => exact List.zipWith_nil_right
  | cons b key ih =>
    show (c ^^^ b) :: Bytes.xor (List.replicate key.length c ++ rest) key = _
    rw [ih, UInt8.xor_comm]
    rfl

theorem mbedtlsXor_pad {B off : Nat} {x z key : ByteString} {c : UInt8} (hx : x.length = off)
    (hkey : key.length ≤ B) :
    mbedtlsXor (x ++ (List.replicate B c ++ z)) off key = x ++ (Hmac.pad B c key ++ z) := by
  have hfill : List.replicate B c =
      List.replicate key.length c ++ List.replicate (B - key.length) c := by
    rw [List.replicate_append_replicate, Nat.add_sub_cancel' hkey]
  unfold mbedtlsXor Hmac.pad
  rw [List.drop_left' hx, hfill, List.append_assoc, xor_constant, List.append_assoc]
  apply storeAt_middle hx
  rw [List.length_replicate, List.length_map]

theorem hmacPads_eq {B : Nat} {hmacCtx key : ByteString} (hlength : hmacCtx.length = 2 * B)
    (hkey : key.length ≤ B) :
    hmacPads B hmacCtx key = Hmac.pad B 0x36 key ++ Hmac.pad B 0x5c key := by
  have hsplit : hmacCtx = [] ++ (hmacCtx.take B ++ (hmacCtx.drop B ++ [])) := by simp
  have htake : (hmacCtx.take B).length = (List.replicate B (0x36 : UInt8)).length := by
    rw [List.length_take, List.length_replicate]
    omega
  have hdrop : (hmacCtx.drop B).length = (List.replicate B (0x5c : UInt8)).length := by
    rw [List.length_drop, List.length_replicate]
    omega
  have hipad : (Hmac.pad B 0x36 key).length = B := Hmac.length_pad hkey
  unfold hmacPads
  dsimp only
  rw [hsplit, storeAt_middle List.length_nil htake, List.nil_append,
    storeAt_middle List.length_replicate hdrop]
  rw [← List.nil_append (List.replicate B 0x36 ++ _), mbedtlsXor_pad List.length_nil hkey,
    List.nil_append, mbedtlsXor_pad hipad hkey, List.append_nil]

/-! ## The calls over a hash that computes `H` -/

variable {α : Type}

/-- The hash computes `H` for every chunking, from every state, and fits in its own blocks. -/
structure MdInfo.Implements (info : MdInfo σ) (H : ByteString → ByteString) : Prop where
  computes : info.toMultipart.Computes (fun _ => True) H
  length_eq : ∀ message, (H message).length = info.size
  size_le : info.size ≤ info.blockSize

theorem MdInfo.Implements.length_le {info : MdInfo σ} {H : ByteString → ByteString}
    (h : info.Implements H) (message : ByteString) : (H message).length ≤ info.blockSize := by
  rw [h.length_eq]
  exact h.size_le

/-- A context whose hash is `info`, with room for its pads. -/
structure MdContext.Ready (ctx : MdContext σ) (info : MdInfo σ) : Prop where
  mdInfo : ctx.mdInfo = some info
  hmacCtx : ∃ buffer, ctx.hmacCtx = some buffer ∧ buffer.length = 2 * info.blockSize

def pads (info : MdInfo σ) (H : ByteString → ByteString) (key : ByteString) : ByteString :=
  Hmac.pad info.blockSize 0x36 (Hmac.shortKey H info.blockSize key) ++
    Hmac.pad info.blockSize 0x5c (Hmac.shortKey H info.blockSize key)

structure MdContext.Keyed (ctx : MdContext σ) (info : MdInfo σ) (H : ByteString → ByteString)
    (key : ByteString) : Prop where
  mdInfo : ctx.mdInfo = some info
  hmacCtx : ctx.hmacCtx = some (pads info H key)

structure MdContext.Open (ctx : MdContext σ) (info : MdInfo σ) (H : ByteString → ByteString)
    (key message : ByteString) : Prop extends ctx.Keyed info H key where
  absorbed : info.toMultipart.Absorbed (fun _ => True)
    (Hmac.pad info.blockSize 0x36 (Hmac.shortKey H info.blockSize key) ++ message) ctx.mdCtx

section Specs

variable {info : MdInfo σ} {H : ByteString → ByteString} {ctx : MdContext σ}
  {key message : ByteString}

theorem onHash_eq {call : MdInfo σ → Fallible σ PsaStatus α} {r : Except PsaStatus α} {s : σ}
    (hinfo : ctx.mdInfo = some info) (h : call info ctx.mdCtx = (r, s)) :
    onHash call ctx = (r, { ctx with mdCtx := s }) := by
  unfold onHash
  rw [hinfo]
  dsimp only
  rw [h, ← hinfo]

theorem withHmac_eq {buffer : ByteString}
    {call : MdInfo σ → ByteString → Fallible (MdContext σ) PsaStatus α}
    (hinfo : ctx.mdInfo = some info) (hbuffer : ctx.hmacCtx = some buffer) :
    withHmac call ctx = call info buffer ctx := by
  unfold withHmac
  rw [hinfo, hbuffer]

theorem mdStarts_spec (h : info.Implements H) (hinfo : ctx.mdInfo = some info) :
    ∃ s, mdStarts ctx = (.ok (), { ctx with mdCtx := s }) ∧
      info.toMultipart.Absorbed (fun _ => True) [] s := by
  obtain ⟨s, hstarts, habsorbed⟩ := h.computes.starts (s := ctx.mdCtx) trivial
  exact ⟨s, onHash_eq hinfo hstarts, habsorbed⟩

theorem mdUpdate_spec (h : info.Implements H) (hinfo : ctx.mdInfo = some info) {s : σ}
    (ha : info.toMultipart.Absorbed (fun _ => True) message s) (input : ByteString) :
    ∃ s', mdUpdate input { ctx with mdCtx := s } = (.ok (), { ctx with mdCtx := s' }) ∧
      info.toMultipart.Absorbed (fun _ => True) (message ++ input) s' := by
  obtain ⟨s', hupdate, habsorbed⟩ := h.computes.update ha input
  have hcall : mdUpdate input { ctx with mdCtx := s } = (.ok (), { ctx with mdCtx := s' }) :=
    onHash_eq hinfo hupdate
  exact ⟨s', hcall, habsorbed⟩

theorem mdFinish_spec (h : info.Implements H) (hinfo : ctx.mdInfo = some info) {s : σ}
    (ha : info.toMultipart.Absorbed (fun _ => True) message s) :
    ∃ s', mdFinish { ctx with mdCtx := s } = (.ok (H message), { ctx with mdCtx := s' }) := by
  obtain ⟨s', hfinish, -⟩ := h.computes.finish ha
  have hcall : mdFinish { ctx with mdCtx := s } = (.ok (H message), { ctx with mdCtx := s' }) :=
    onHash_eq hinfo hfinish
  exact ⟨s', hcall⟩

theorem take_pads (h : info.Implements H) (key : ByteString) :
    (pads info H key).take info.blockSize =
      Hmac.pad info.blockSize 0x36 (Hmac.shortKey H info.blockSize key) :=
  List.take_left' (Hmac.length_pad (Hmac.length_shortKey h.length_le key))

theorem drop_pads (h : info.Implements H) (key : ByteString) :
    ((pads info H key).drop info.blockSize).take info.blockSize =
      Hmac.pad info.blockSize 0x5c (Hmac.shortKey H info.blockSize key) := by
  have hshort := Hmac.length_shortKey h.length_le key
  unfold pads
  rw [List.drop_left' (Hmac.length_pad hshort), List.take_of_length_le]
  exact Nat.le_of_eq (Hmac.length_pad hshort)

theorem mdHmacKey_spec (h : info.Implements H) (hinfo : ctx.mdInfo = some info)
    (key : ByteString) :
    ∃ s, mdHmacKey info key ctx =
      (.ok (Hmac.shortKey H info.blockSize key), { ctx with mdCtx := s }) := by
  unfold mdHmacKey Hmac.shortKey
  -- a key longer than a block is hashed with the hash of the context
  by_cases hlong : info.blockSize < key.length
  · obtain ⟨s₁, hstarts, habsorbed⟩ := mdStarts_spec h hinfo
    obtain ⟨s₂, hupdate, habsorbed⟩ := mdUpdate_spec h hinfo habsorbed key
    obtain ⟨s₃, hfinish⟩ := mdFinish_spec h hinfo habsorbed
    refine ⟨s₃, ?_⟩
    rw [if_pos hlong, if_pos hlong, Fallible.bind_ok hstarts, Fallible.bind_ok hupdate,
      Fallible.bind_ok hfinish, List.nil_append,
      List.take_of_length_le (Nat.le_of_eq (h.length_eq key))]
    rfl
  · refine ⟨ctx.mdCtx, ?_⟩
    rw [if_neg hlong, if_neg hlong]
    rfl

theorem restart_spec (h : info.Implements H) (hkeyed : ctx.Keyed info H key) :
    ∃ ctx', (mdStarts >>= fun _ => mdUpdate ((pads info H key).take info.blockSize)) ctx =
        (.ok (), ctx') ∧ ctx'.Open info H key [] := by
  obtain ⟨s₁, hstarts, habsorbed⟩ := mdStarts_spec h hkeyed.mdInfo
  obtain ⟨s₂, hupdate, habsorbed⟩ :=
    mdUpdate_spec h hkeyed.mdInfo habsorbed ((pads info H key).take info.blockSize)
  refine ⟨{ ctx with mdCtx := s₂ }, ?_, ?_⟩
  · rw [Fallible.bind_ok hstarts]
    exact hupdate
  · rw [List.nil_append, take_pads h] at habsorbed
    exact { mdInfo := hkeyed.mdInfo, hmacCtx := hkeyed.hmacCtx,
            absorbed := by rwa [List.append_nil] }

/-! ## What each call does -/

theorem mdHmacStarts_spec (h : info.Implements H) (hr : ctx.Ready info) (key : ByteString) :
    ∃ ctx', mdHmacStarts key ctx = (.ok (), ctx') ∧ ctx'.Open info H key [] := by
  obtain ⟨buffer, hbuffer, hlength⟩ := hr.hmacCtx
  have hpads : hmacPads info.blockSize buffer (Hmac.shortKey H info.blockSize key) =
      pads info H key := hmacPads_eq hlength (Hmac.length_shortKey h.length_le key)
  obtain ⟨s, hshort⟩ := mdHmacKey_spec h hr.mdInfo key
  have hkeyed : MdContext.Keyed
      { ctx with mdCtx := s, hmacCtx := some (pads info H key) } info H key :=
    { mdInfo := hr.mdInfo, hmacCtx := rfl }
  obtain ⟨ctx', hrestart, hopen⟩ := restart_spec h hkeyed
  refine ⟨ctx', ?_, hopen⟩
  unfold mdHmacStarts
  rw [withHmac_eq hr.mdInfo hbuffer, Fallible.bind_ok hshort, hpads,
    Fallible.bind_ok (Fallible.update_apply _ _)]
  exact hrestart

theorem mdHmacUpdate_spec (h : info.Implements H) (hopen : ctx.Open info H key message)
    (input : ByteString) :
    ∃ ctx', mdHmacUpdate input ctx = (.ok (), ctx') ∧ ctx'.Open info H key (message ++ input) := by
  obtain ⟨s, hupdate, habsorbed⟩ := mdUpdate_spec h hopen.mdInfo hopen.absorbed input
  refine ⟨{ ctx with mdCtx := s }, ?_, ?_⟩
  · unfold mdHmacUpdate
    rw [withHmac_eq hopen.mdInfo hopen.hmacCtx]
    exact hupdate
  · rw [List.append_assoc] at habsorbed
    exact { mdInfo := hopen.mdInfo, hmacCtx := hopen.hmacCtx, absorbed := habsorbed }

theorem mdHmacFinish_spec (h : info.Implements H) (hopen : ctx.Open info H key message) :
    ∃ ctx', mdHmacFinish ctx = (.ok (Hmac.hmac H info.blockSize key message), ctx') ∧
      ctx'.Keyed info H key := by
  have hinfo : ctx.mdInfo = some info := hopen.mdInfo
  obtain ⟨s₁, hinner⟩ := mdFinish_spec h hinfo hopen.absorbed
  have hkeyed : MdContext.Keyed { ctx with mdCtx := s₁ } info H key :=
    { mdInfo := hinfo, hmacCtx := hopen.hmacCtx }
  obtain ⟨s₂, hstarts, habsorbed⟩ := mdStarts_spec h hkeyed.mdInfo
  obtain ⟨s₃, hopad, habsorbed⟩ := mdUpdate_spec h hinfo habsorbed
    (((pads info H key).drop info.blockSize).take info.blockSize)
  obtain ⟨s₄, htmp, habsorbed⟩ := mdUpdate_spec h hinfo habsorbed
    (H (Hmac.pad info.blockSize 0x36 (Hmac.shortKey H info.blockSize key) ++ message))
  obtain ⟨s₅, houter⟩ := mdFinish_spec h hinfo habsorbed
  refine ⟨{ ctx with mdCtx := s₅ }, ?_, { mdInfo := hinfo, hmacCtx := hopen.hmacCtx }⟩
  unfold mdHmacFinish
  rw [withHmac_eq hinfo hopen.hmacCtx, Fallible.bind_ok hinner, Fallible.bind_ok hstarts,
    Fallible.bind_ok hopad, List.take_of_length_le (Nat.le_of_eq (h.length_eq _)),
    Fallible.bind_ok htmp, houter, List.nil_append, drop_pads h,
    Hmac.hmac_eq_pads h.length_le]

theorem mdHmacReset_spec (h : info.Implements H) (hkeyed : ctx.Keyed info H key) :
    ∃ ctx', mdHmacReset ctx = (.ok (), ctx') ∧ ctx'.Open info H key [] := by
  obtain ⟨ctx', hrestart, hopen⟩ := restart_spec h hkeyed
  refine ⟨ctx', ?_, hopen⟩
  unfold mdHmacReset
  rw [withHmac_eq hkeyed.mdInfo hkeyed.hmacCtx]
  exact hrestart

end Specs

/-! ## Sessions -/

variable {m : Fallible (MdContext σ) PsaStatus α}

inductive HmacCall where
  | starts (key : ByteString)
  | update (input : ByteString)
  | finish
  | reset

/-- What the caller has said: the last key and, unless the message has been finished, what has
been given of it. -/
structure Session where
  key : ByteString
  message : Option ByteString

namespace HmacCall

def perform : HmacCall → MdContext σ → MdContext σ
  | .starts key, ctx => (mdHmacStarts key ctx).2
  | .update input, ctx => (mdHmacUpdate input ctx).2
  | .finish, ctx => (mdHmacFinish ctx).2
  | .reset, ctx => (mdHmacReset ctx).2

def next : HmacCall → Option Session → Option Session
  | .starts key, _ => some { key := key, message := some [] }
  | .update input, session =>
    session.map fun s => { s with message := s.message.map (· ++ input) }
  | .finish, session => session.map fun s => { s with message := none }
  | .reset, session => session.map fun s => { s with message := some [] }

end HmacCall

def performAll (calls : List HmacCall) (ctx : MdContext σ) : MdContext σ :=
  calls.foldl (fun ctx call => call.perform ctx) ctx

def hmacSession (calls : List HmacCall) : Option Session :=
  calls.foldl (fun session call => call.next session) none

def Matches (info : MdInfo σ) (H : ByteString → ByteString) (ctx : MdContext σ) :
    Option Session → Prop
  | none => ctx.Ready info
  | some { key, message := none } => ctx.Keyed info H key
  | some { key, message := some message } => ctx.Open info H key message

section Runs

variable {info : MdInfo σ} {H : ByteString → ByteString} {ctx : MdContext σ}
  {key message : ByteString}

def Keeps {α : Type} (m : Fallible (MdContext σ) PsaStatus α) : Prop :=
  ∀ ctx, (m ctx).2.mdInfo = ctx.mdInfo ∧ (m ctx).2.hmacCtx = ctx.hmacCtx

theorem keeps_onHash (call : MdInfo σ → Fallible σ PsaStatus α) : Keeps (onHash call) := by
  intro ctx
  unfold onHash
  split
  · exact ⟨rfl, rfl⟩
  · exact ⟨rfl, rfl⟩

theorem Keeps.bind {β : Type} {f : α → Fallible (MdContext σ) PsaStatus β} (hm : Keeps m)
    (hf : ∀ a, Keeps (f a)) :
    Keeps (m >>= f) := by
  intro ctx
  obtain ⟨hinfo, hbuffer⟩ := hm ctx
  rcases hrun : m ctx with ⟨e | a, ctx'⟩
  · rw [hrun] at hinfo hbuffer
    rw [Fallible.bind_error hrun]
    exact ⟨hinfo, hbuffer⟩
  · rw [hrun] at hinfo hbuffer
    rw [Fallible.bind_ok hrun]
    obtain ⟨hinfo', hbuffer'⟩ := hf a ctx'
    exact ⟨hinfo'.trans hinfo, hbuffer'.trans hbuffer⟩

theorem keeps_withHmac {call : MdInfo σ → ByteString → Fallible (MdContext σ) PsaStatus α}
    (h : ∀ info buffer, Keeps (call info buffer)) : Keeps (withHmac call) := by
  intro ctx
  unfold withHmac
  split
  · exact h _ _ ctx
  · exact ⟨rfl, rfl⟩

theorem keeps_update (input : ByteString) :
    Keeps (mdHmacUpdate input : Fallible (MdContext σ) PsaStatus Unit) :=
  keeps_withHmac fun _ _ => keeps_onHash _

theorem keeps_finish : Keeps (mdHmacFinish : Fallible (MdContext σ) PsaStatus ByteString) :=
  keeps_withHmac fun _ _ => (keeps_onHash _).bind fun _ => (keeps_onHash _).bind fun _ =>
    (keeps_onHash _).bind fun _ => (keeps_onHash _).bind fun _ => keeps_onHash _

theorem keeps_reset : Keeps (mdHmacReset : Fallible (MdContext σ) PsaStatus Unit) :=
  keeps_withHmac fun _ _ => (keeps_onHash _).bind fun _ => keeps_onHash _

theorem Keeps.ready (hm : Keeps m) (h : ctx.Ready info) : (m ctx).2.Ready info := by
  obtain ⟨buffer, hbuffer, hlength⟩ := h.hmacCtx
  exact { mdInfo := (hm ctx).1.trans h.mdInfo,
          hmacCtx := ⟨buffer, (hm ctx).2.trans hbuffer, hlength⟩ }

theorem Keeps.keyed (hm : Keeps m) (h : ctx.Keyed info H key) : (m ctx).2.Keyed info H key where
  mdInfo := (hm ctx).1.trans h.mdInfo
  hmacCtx := (hm ctx).2.trans h.hmacCtx

theorem Keyed.ready (h : info.Implements H) (hkeyed : ctx.Keyed info H key) : ctx.Ready info where
  mdInfo := hkeyed.mdInfo
  hmacCtx := by
    have hshort := Hmac.length_shortKey h.length_le key
    refine ⟨pads info H key, hkeyed.hmacCtx, ?_⟩
    unfold pads
    rw [List.length_append, Hmac.length_pad hshort, Hmac.length_pad hshort, Nat.two_mul]

theorem Matches.ready (h : info.Implements H) {s : Option Session} (hm : Matches info H ctx s) :
    ctx.Ready info := by
  match s, hm with
  | none, hready => exact hready
  | some { key := _, message := none }, hkeyed => exact Keyed.ready h hkeyed
  | some { key := _, message := some _ }, hopen => exact Keyed.ready h hopen.toKeyed

theorem Matches.perform (h : info.Implements H) {s : Option Session} (hm : Matches info H ctx s)
    (call : HmacCall) : Matches info H (call.perform ctx) (call.next s) := by
  cases call with
  | starts key =>
    obtain ⟨ctx', hcall, hopen⟩ := mdHmacStarts_spec h (hm.ready h) key
    show MdContext.Open (mdHmacStarts key ctx).2 info H key []
    rw [hcall]
    exact hopen
  | update input =>
    match s, hm with
    | none, hready => exact (keeps_update input).ready hready
    | some { key := _, message := none }, hkeyed => exact (keeps_update input).keyed hkeyed
    | some { key, message := some message }, hopen =>
      obtain ⟨ctx', hcall, hopen'⟩ := mdHmacUpdate_spec h hopen input
      show MdContext.Open (mdHmacUpdate input ctx).2 info H key (message ++ input)
      rw [hcall]
      exact hopen'
  | finish =>
    match s, hm with
    | none, hready => exact keeps_finish.ready hready
    | some { key := _, message := none }, hkeyed => exact keeps_finish.keyed hkeyed
    | some { key := _, message := some _ }, hopen => exact keeps_finish.keyed hopen.toKeyed
  | reset =>
    have hreset : ∀ key, ctx.Keyed info H key →
        MdContext.Open (mdHmacReset ctx).2 info H key [] := by
      intro key hkeyed
      obtain ⟨ctx', hcall, hopen⟩ := mdHmacReset_spec h hkeyed
      rw [hcall]
      exact hopen
    match s, hm with
    | none, hready => exact keeps_reset.ready hready
    | some { key, message := none }, hkeyed => exact hreset key hkeyed
    | some { key, message := some _ }, hopen => exact hreset key hopen.toKeyed

theorem matches_performAll (h : info.Implements H) (hr : ctx.Ready info)
    (calls : List HmacCall) : Matches info H (performAll calls ctx) (hmacSession calls) := by
  induction calls using List.reverseRecOn with
  | nil => exact hr
  | append_singleton calls call ih =>
    unfold performAll hmacSession
    rw [List.foldl_append, List.foldl_append]
    exact ih.perform h call

theorem finish_of_session (h : info.Implements H) (hr : ctx.Ready info) {calls : List HmacCall}
    (hs : hmacSession calls = some { key := key, message := some message }) :
    (mdHmacFinish (performAll calls ctx)).1 = .ok (Hmac.hmac H info.blockSize key message) := by
  have hopen := matches_performAll h hr calls
  rw [hs] at hopen
  obtain ⟨ctx', hcall, -⟩ := mdHmacFinish_spec h hopen
  rw [hcall]

theorem mdHmac_eq (h : info.Implements H) (key input : ByteString) :
    mdHmac (some info) true true key input = .ok (Hmac.hmac H info.blockSize key input) := by
  have hready : MdContext.Ready
      { mdInfo := some info, mdCtx := info.init,
        hmacCtx := some (List.replicate (2 * info.blockSize) 0) } info :=
    { mdInfo := rfl, hmacCtx := ⟨_, rfl, List.length_replicate⟩ }
  obtain ⟨ctx₁, hstarts, hopen⟩ := mdHmacStarts_spec h hready key
  obtain ⟨ctx₂, hupdate, hopen⟩ := mdHmacUpdate_spec h hopen input
  obtain ⟨ctx₃, hfinish, -⟩ := mdHmacFinish_spec h hopen
  have hbody : (mdHmacStarts key >>= fun _ => mdHmacUpdate input >>= fun _ => mdHmacFinish)
      { mdInfo := some info, mdCtx := info.init,
        hmacCtx := some (List.replicate (2 * info.blockSize) 0) } =
        (.ok (Hmac.hmac H info.blockSize key input), ctx₃) := by
    rw [Fallible.bind_ok hstarts, Fallible.bind_ok hupdate]
    exact hfinish
  exact congrArg Prod.fst hbody

end Runs

end TfPsaCrypto.MdHmac
