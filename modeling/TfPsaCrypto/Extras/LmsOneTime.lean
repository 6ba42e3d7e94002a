import TfPsaCrypto.Extras.Lms

/-!
# LMS: one-time keys are used once

What a call of `mbedtls_lms_sign` can do to the private key and to the caller's buffer, and what
follows for every sequence of calls: no leaf is passed to `mbedtls_lmots_sign` twice, and a one-time
key is erased before its data is written.
-/

namespace TfPsaCrypto

namespace Lms

open Bytes Blocks

/-! ## What a call can do -/

def LmotsPrivate.Erased (priv : LmotsPrivate) : Prop :=
  priv.havePrivateKey = false ∧ ∀ i, priv.privateKey i = Block.zero

def LmotsPrivate.erase (priv : LmotsPrivate) : LmotsPrivate :=
  { priv with havePrivateKey := false, privateKey := fun _ => Block.zero }

theorem LmotsPrivate.erased_erase (priv : LmotsPrivate) : priv.erase.Erased := ⟨rfl, fun _ => rfl⟩

theorem lmotsSign_cases (env : Env) (priv : LmotsPrivate) (msg sig : ByteString) (sigSize : Nat) :
    (∃ e, lmotsSign env priv msg sig sigSize = ⟨.error e, priv, sig⟩) ∨
      ((lmotsSign env priv msg sig sigSize).ret = .ok () ∧
        (lmotsSign env priv msg sig sigSize).ctx = priv.erase) := by
  unfold lmotsSign
  split
  · exact .inl ⟨_, rfl⟩
  split
  · exact .inl ⟨_, rfl⟩
  split
  · exact .inl ⟨_, rfl⟩
  split
  · exact .inl ⟨_, rfl⟩
  · split
    · exact .inl ⟨_, rfl⟩
    · exact .inr ⟨rfl, rfl⟩

structure LmsPrivate.Valid (ctx : LmsPrivate) : Prop where
  havePrivateKey : ctx.havePrivateKey = true
  type : ctx.params.type = lmsSha256M32H10
  otstype : ctx.params.otstype = lmotsSha256N32W8

variable {env : Env} {ctx : LmsPrivate} {msg sig : ByteString}

theorem lmsSignPath_ctx (q : Nat) :
    (lmsSignPath env ctx q sig).ctx = ctx ∧ (lmsSignPath env ctx q sig).leaf = some q := by
  unfold lmsSignPath
  split
  · exact ⟨rfl, rfl⟩
  · exact ⟨rfl, rfl⟩

def LmsPrivate.used (ctx : LmsPrivate) (priv : LmotsPrivate) : LmsPrivate :=
  { ctx with
      qNextUsableKey := ctx.qNextUsableKey + 1
      otsPrivateKeys := Function.update ctx.otsPrivateKeys ctx.qNextUsableKey priv }

theorem lmsSign_cases (env : Env) (ctx : LmsPrivate) (msg sig : ByteString) :
    (∃ e, lmsSign env ctx msg sig = ⟨.error e, ctx, sig, none⟩) ∨
      (ctx.Valid ∧ ctx.qNextUsableKey < 1024 ∧
        (lmsSign env ctx msg sig).leaf = some ctx.qNextUsableKey ∧
        (((∃ e, (lmsSign env ctx msg sig).ret = .error e) ∧
            (lmsSign env ctx msg sig).sig = sig ∧
            (lmsSign env ctx msg sig).ctx = ctx.used (ctx.otsPrivateKeys ctx.qNextUsableKey)) ∨
          (lmsSign env ctx msg sig).ctx =
            ctx.used (ctx.otsPrivateKeys ctx.qNextUsableKey).erase)) := by
  unfold lmsSign
  split
  · exact .inl ⟨_, rfl⟩
  next hkey =>
  split
  · exact .inl ⟨_, rfl⟩
  split
  · exact .inl ⟨_, rfl⟩
  next htype =>
  split
  · exact .inl ⟨_, rfl⟩
  next hotstype =>
  split
  · exact .inl ⟨_, rfl⟩
  next hq =>
  right
  refine ⟨⟨Bool.not_eq_false _ ▸ hkey, Classical.not_not.mp htype,
    Classical.not_not.mp hotstype⟩, Nat.lt_of_not_le hq, ?_⟩
  simp only
  rcases lmotsSign_cases env (ctx.otsPrivateKeys ctx.qNextUsableKey) msg
    (sig.drop 4) (lmsSigLen ctx.params.type ctx.params.otstype - 4) with
    ⟨e, h⟩ | ⟨hret, hctx⟩
  · rw [h]
    exact ⟨rfl, .inl ⟨⟨e, rfl⟩, List.take_append_drop 4 sig, rfl⟩⟩
  · rw [hret, hctx]
    refine ⟨(lmsSignPath_ctx _).2, .inr ?_⟩
    rw [(lmsSignPath_ctx _).1]
    rfl

theorem lmsSign_exhausted (h : ctx.Valid) (hq : 1024 ≤ ctx.qNextUsableKey) :
    (lmsSign env ctx msg sig).ret =
      if sig.length < 1452 then .error .bufferTooSmall else .error .outOfPrivateKeys := by
  have hlen : lmsSigLen ctx.params.type ctx.params.otstype = 1452 := by
    rw [h.type, h.otstype]
    rfl
  unfold lmsSign
  rw [if_neg (by rw [h.havePrivateKey]; simp), hlen]
  by_cases hsmall : sig.length < 1452
  · rw [if_pos hsmall, if_pos hsmall]
  · rw [if_neg hsmall, if_neg hsmall, if_neg (not_not.mpr h.type), if_neg (not_not.mpr h.otstype),
      if_pos hq]

/-! ## Sequences of calls -/

abbrev SignEvent := SignCall × LmsSigned

/-- The leaves that the calls passed to `mbedtls_lmots_sign`, in order. -/
def leaves (tr : List SignEvent) : List Nat := tr.filterMap fun ev => ev.2.leaf

/-- What holds after a run from a context whose next leaf was `q₀`. -/
structure SignInv (q₀ : Nat) (tr : List SignEvent) (ctx : LmsPrivate) : Prop where
  valid : ctx.Valid
  next : q₀ ≤ ctx.qNextUsableKey
  distinct : (leaves tr).Nodup
  passed : ∀ q ∈ leaves tr, q₀ ≤ q ∧ q < ctx.qNextUsableKey
  erased : ∀ ev ∈ tr, ev.2.sig ≠ ev.1.sig →
    ∃ q, ev.2.leaf = some q ∧ q < ctx.qNextUsableKey ∧ (ctx.otsPrivateKeys q).Erased

theorem leaves_snoc {tr : List SignEvent} {ev : SignEvent} :
    leaves (tr ++ [ev]) = leaves tr ++ ev.2.leaf.toList := by
  unfold leaves
  rw [List.filterMap_append]
  cases h : ev.2.leaf <;> simp [h]

theorem LmsPrivate.used_of_lt {priv : LmotsPrivate} {q : Nat} (h : q < ctx.qNextUsableKey) :
    (ctx.used priv).otsPrivateKeys q = ctx.otsPrivateKeys q :=
  Function.update_of_ne (Nat.ne_of_lt h) _ _

theorem LmsPrivate.used_self {priv : LmotsPrivate} :
    (ctx.used priv).otsPrivateKeys ctx.qNextUsableKey = priv :=
  Function.update_self _ _ _

theorem SignInv.step {q₀ : Nat} {tr : List SignEvent} (h : SignInv q₀ tr ctx) (call : SignCall) :
    SignInv q₀ (tr ++ [(call, lmsSign call.env ctx call.msg call.sig)])
      (lmsSign call.env ctx call.msg call.sig).ctx := by
  rcases lmsSign_cases call.env ctx call.msg call.sig with
    ⟨e, heq⟩ | ⟨_, _, hleaf, hcases⟩
  · -- nothing happens
    rw [heq]
    refine ⟨h.valid, h.next, ?_, ?_, ?_⟩
    · rw [leaves_snoc]
      simpa using h.distinct
    · intro q hq
      rw [leaves_snoc] at hq
      exact h.passed q (by simpa using hq)
    intro ev hev hchanged
    rcases List.mem_append.mp hev with hev | hev
    · exact h.erased ev hev hchanged
    · rw [List.mem_singleton.mp hev] at hchanged
      exact absurd rfl hchanged
  · -- the next leaf is passed
    generalize lmsSign call.env ctx call.msg call.sig = r at hleaf hcases ⊢
    obtain ⟨priv, hctx⟩ : ∃ priv, r.ctx = ctx.used priv := by
      rcases hcases with ⟨_, _, hctx⟩ | hctx
      · exact ⟨_, hctx⟩
      · exact ⟨_, hctx⟩
    have hnext : r.ctx.qNextUsableKey = ctx.qNextUsableKey + 1 := by
      rw [hctx]
      rfl
    have hvalid : r.ctx.Valid := by
      rw [hctx]
      exact ⟨h.valid.havePrivateKey, h.valid.type, h.valid.otstype⟩
    have hkept : ∀ q, q < ctx.qNextUsableKey → r.ctx.otsPrivateKeys q = ctx.otsPrivateKeys q := by
      intro q hq
      rw [hctx]
      exact LmsPrivate.used_of_lt hq
    have hle := h.next
    refine ⟨hvalid, by omega, ?_, ?_, ?_⟩
    · rw [leaves_snoc, hleaf, Option.toList_some]
      rw [List.nodup_append]
      refine ⟨h.distinct, List.pairwise_singleton _ _, ?_⟩
      intro q hq last hlast heq
      have hlt := (h.passed q hq).2
      rw [heq, List.mem_singleton.mp hlast] at hlt
      exact Nat.lt_irrefl _ hlt
    · intro q hq
      rw [leaves_snoc, hleaf, Option.toList_some] at hq
      rcases List.mem_append.mp hq with hq | hq
      · have := h.passed q hq
        omega
      · rw [List.mem_singleton.mp hq]
        omega
    · intro ev hev hchanged
      rcases List.mem_append.mp hev with hev | hev
      · obtain ⟨q, hq, hlt, herased⟩ := h.erased ev hev hchanged
        exact ⟨q, hq, by omega, by rw [hkept q hlt]; exact herased⟩
      rw [List.mem_singleton.mp hev] at hchanged ⊢
      refine ⟨ctx.qNextUsableKey, hleaf, by omega, ?_⟩
      rcases hcases with ⟨_, hsig, _⟩ | hctx
      · exact absurd hsig hchanged
      · rw [hctx, LmsPrivate.used_self]
        exact LmotsPrivate.erased_erase _

theorem SignInv.run {key : LmsPrivate} (hkey : key.Valid) {tr : List SignEvent}
    (h : Machine.Run signMachine key tr ctx) : SignInv key.qNextUsableKey tr ctx := by
  apply Machine.Run.invariant (P := fun _ => True) ?_ ?_ h fun _ _ => trivial
  · exact ⟨hkey, Nat.le_refl _, List.nodup_nil, fun q hq => absurd hq List.not_mem_nil,
      fun ev hev => absurd hev List.not_mem_nil⟩
  · intro tr s a s' o hinv _ hstep
    obtain ⟨rfl, rfl⟩ := hstep
    exact hinv.step a

/-- **One-time keys are used once**, in every run of `mbedtls_lms_sign` on a private key. -/
theorem lms_one_time (key : LmsPrivate) (hkey : key.Valid) (tr : List SignEvent) (ctx : LmsPrivate)
    (h : Machine.Run signMachine key tr ctx) :
    (leaves tr).Nodup ∧
    key.qNextUsableKey ≤ ctx.qNextUsableKey ∧
    (1024 ≤ ctx.qNextUsableKey → ∀ env msg sig, (lmsSign env ctx msg sig).ret =
      if sig.length < lmsSigLen ctx.params.type ctx.params.otstype then .error .bufferTooSmall
      else .error .outOfPrivateKeys) ∧
    (∀ ev ∈ tr, ev.2.sig ≠ ev.1.sig → ∃ q, ev.2.leaf = some q ∧ (ctx.otsPrivateKeys q).Erased) ∧
    ∀ env priv msg sig sigSize e, (lmotsSign env priv msg sig sigSize).ret = .error e →
      (lmotsSign env priv msg sig sigSize).sig = sig := by
  have hinv := SignInv.run hkey h
  refine ⟨hinv.distinct, hinv.next, ?_, ?_, ?_⟩
  · intro hq env msg sig
    have hlen : lmsSigLen ctx.params.type ctx.params.otstype = 1452 := by
      rw [hinv.valid.type, hinv.valid.otstype]
      rfl
    rw [hlen]
    exact lmsSign_exhausted hinv.valid hq
  · intro ev hev hchanged
    obtain ⟨q, hq, _, herased⟩ := hinv.erased ev hev hchanged
    exact ⟨q, hq, herased⟩
  · intro env priv msg sig sigSize e hret
    rcases lmotsSign_cases env priv msg sig sigSize with ⟨e', heq⟩ | ⟨hok, _⟩
    · rw [heq]
    · rw [hok] at hret
      cases hret

def zeroKey : LmsPrivate :=
  { params := ⟨Block.zero, lmotsSha256N32W8, lmsSha256M32H10⟩, qNextUsableKey := 0
    otsPrivateKeys := fun _ => .zero, otsPublicKeys := fun _ => .zero, havePrivateKey := true }

theorem zeroKey_valid : zeroKey.Valid := ⟨rfl, rfl, rfl⟩

def failingCall : SignCall :=
  { env := ⟨fun _ => .ok Block.zero, .error (.other (-1)), .error (.other (-1)), true⟩
    msg := [], sig := List.replicate 1452 0 }

theorem lms_one_time_witness :
    ∃ tr ctx, Machine.Run signMachine zeroKey tr ctx ∧ tr.length = 2 ∧ (leaves tr).Nodup := by
  have hnil : Machine.Run signMachine zeroKey [] zeroKey := .nil
  have hrun := (hnil.snoc (a := failingCall) rfl).snoc (a := failingCall) rfl
  exact ⟨_, _, hrun, rfl, (lms_one_time zeroKey zeroKey_valid _ _ hrun).1⟩

theorem exists_run (n : Nat) (hn : n ≤ 1024) :
    ∃ tr ctx, Machine.Run signMachine zeroKey tr ctx ∧ ctx.Valid ∧ ctx.qNextUsableKey = n := by
  induction n with
  | zero => exact ⟨[], zeroKey, .nil, zeroKey_valid, rfl⟩
  | succ n ih =>
    obtain ⟨tr, ctx, hrun, hvalid, hq⟩ := ih (by omega)
    have hnext := hrun.snoc (a := failingCall) (o := lmsSign failingCall.env ctx [] _) rfl
    have hinv := SignInv.run zeroKey_valid hnext
    refine ⟨_, _, hnext, hinv.valid, ?_⟩
    have hlen : lmsSigLen ctx.params.type ctx.params.otstype = 1452 := by
      rw [hvalid.type, hvalid.otstype]
      rfl
    rcases lmsSign_cases failingCall.env ctx [] (List.replicate 1452 0) with
      ⟨e, heq⟩ | ⟨_, _, _, ⟨_, _, hctx⟩ | hctx⟩
    · -- the leaf is passed, since the buffer is large enough
      have hleaf : (lmsSign failingCall.env ctx [] (List.replicate 1452 0)).leaf ≠ none := by
        unfold lmsSign
        rw [if_neg (by rw [hvalid.havePrivateKey]; simp), hlen,
          if_neg (by rw [List.length_replicate]; omega), if_neg (not_not.mpr hvalid.type),
          if_neg (not_not.mpr hvalid.otstype), if_neg (by omega)]
        simp only
        split
        · simp
        · rw [(lmsSignPath_ctx _).2]
          simp
      rw [heq] at hleaf
      exact absurd rfl hleaf
    · rw [show (lmsSign failingCall.env ctx failingCall.msg failingCall.sig).ctx = _ from hctx]
      show ctx.qNextUsableKey + 1 = n + 1
      rw [hq]
    · rw [show (lmsSign failingCall.env ctx failingCall.msg failingCall.sig).ctx = _ from hctx]
      show ctx.qNextUsableKey + 1 = n + 1
      rw [hq]

/-- **Counterexample.** Once all leaves are used, a call with a small buffer reports the buffer. -/
theorem lms_exhausted_small_buffer :
    ∃ tr ctx, Machine.Run signMachine zeroKey tr ctx ∧ ctx.qNextUsableKey = 2 ^ 10 ∧
      (lmsSign failingCall.env ctx [] []).ret = .error .bufferTooSmall := by
  obtain ⟨tr, ctx, hrun, hvalid, hq⟩ := exists_run 1024 (Nat.le_refl _)
  refine ⟨tr, ctx, hrun, hq, ?_⟩
  rw [lmsSign_exhausted hvalid (by omega)]
  exact if_pos (by simp)

end Lms

end TfPsaCrypto
