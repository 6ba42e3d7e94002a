import TfPsaCrypto.Multipart.Operation

/-!
# The driver protocol of multipart operations

`CallRule` says where a driver call is in order and what it leaves. The core follows the rules
because the fields of an operation tell the state of its driver (`Tie`).
-/

namespace TfPsaCrypto

open Bytes

/-! ## Rules for driver calls -/

/-- The driver of an operation: it holds nothing, it is set up, or a call failed or ended
the operation and the core owes it an abort. `τ` is what the calls so far have settled. -/
inductive DriverState (τ : Type*) where
  | idle
  | active (t : τ)
  | ended
  deriving DecidableEq, Repr

/-- Where a driver call is in order. `setup`: on an idle driver; one that fails leaves nothing, or
with `kept` something to abort. `within`: between the setup and the end. `constant`: likewise, and
it changes nothing. `last`: it ends the operation. `abort`: once for each driver that is not idle.
-/
inductive CallRule (τ : Type*) where
  | setup (t : Option τ) (kept : Bool)
  | within (next : τ → Option τ)
  | constant
  | last (permitted : τ → Bool)
  | abort

/-- The state of the driver after a call, `none` where the call is out of order. -/
def DriverState.next {χ τ : Type*} (rule : χ → CallRule τ) (d : DriverState τ)
    (e : MultipartEvent χ) : Option (DriverState τ) :=
  match rule e.call, d with
  | .setup t kept, .idle =>
    t.map fun t =>
      if e.status = .success then .active t else if kept then .ended else .idle
  | .within next, .active t =>
    (next t).map fun t' => if e.status = .success then .active t' else .ended
  | .constant, .active t => some (.active t)
  | .last permitted, .active t => if permitted t then some .ended else none
  | .abort, .active _ => some .idle
  | .abort, .ended => some .idle
  | _, _ => none

structure Tie (σ τ : Type*) where
  id : σ → Nat
  Idle : σ → Prop
  Active : τ → σ → Prop
  id_of_idle : ∀ {op}, Idle op → id op = 0
  id_of_active : ∀ {t op}, Active t op → id op ≠ 0

namespace Tie

variable {σ χ τ : Type*} (T : Tie σ τ) (rule : χ → CallRule τ)

def Holds : DriverState τ → σ → Prop
  | .idle, op => T.Idle op
  | .active t, op => T.Active t op
  | .ended, _ => False

def Abortable (d : DriverState τ) (op : σ) : Prop := d = .idle ∧ T.Idle op ∨ d ≠ .idle ∧ T.id op ≠ 0

/-- The driver calls are in order from the state `d`, and lead to that of the operation left. -/
def Leads (d : DriverState τ) (r : MultipartResult σ χ) : Prop :=
  ∃ d', r.log.foldlM (DriverState.next rule) d = some d' ∧ T.Holds d' r.operation

variable {T rule} {d : DriverState τ} {op : σ} {status : PsaStatus}
  {abort : σ → MultipartResult σ χ}

theorem Holds.idle (h : T.Holds d op) (hid : T.id op = 0) : d = .idle ∧ T.Idle op := by
  cases d with
  | idle => exact ⟨rfl, h⟩
  | active t => exact absurd hid (T.id_of_active h)
  | ended => exact h.elim

theorem Holds.active (h : T.Holds d op) (hid : T.id op ≠ 0) :
    ∃ t, d = .active t ∧ T.Active t op := by
  cases d with
  | idle => exact absurd (T.id_of_idle h) hid
  | active t => exact ⟨t, rfl, h⟩
  | ended => exact h.elim

theorem Holds.abortable (h : T.Holds d op) : T.Abortable d op := by
  cases d with
  | idle => exact .inl ⟨rfl, h⟩
  | active t => exact .inr ⟨by simp, T.id_of_active h⟩
  | ended => exact h.elim

theorem Leads.unlock {r : MultipartResult σ χ} (h : T.Leads rule d r) (env : MultipartEnv) :
    T.Leads rule d (r.unlock env) :=
  h

theorem Leads.prepend {log : List (MultipartEvent χ)} {d₁ : DriverState τ}
    {r r' : MultipartResult σ χ} (h : T.Leads rule d₁ r)
    (hlog : log.foldlM (DriverState.next rule) d = some d₁)
    (hr' : r'.log = log ++ r.log ∧ r'.operation = r.operation) : T.Leads rule d r' := by
  obtain ⟨d₂, hrest, hholds⟩ := h
  refine ⟨d₂, ?_, by rw [hr'.2]; exact hholds⟩
  rw [hr'.1, List.foldlM_append, hlog]
  exact hrest

section Exit

variable (habort : ∀ d op, T.Abortable d op → T.Leads rule d (abort op))
include habort

theorem leads_exit {log : List (MultipartEvent χ)} {d₁ : DriverState τ}
    (hlog : log.foldlM (DriverState.next rule) d = some d₁)
    (hok : status = .success → T.Holds d₁ op)
    (hfail : status ≠ .success → T.Abortable d₁ op) :
    T.Leads rule d (multipartExit abort op log status) := by
  unfold multipartExit
  split
  · next hne => exact (habort d₁ op (hfail hne)).prepend hlog ⟨rfl, rfl⟩
  · next hsuccess =>
    rw [not_not] at hsuccess
    exact ⟨d₁, hlog, hok hsuccess⟩

theorem Abortable.leads_exit (h : T.Abortable d op) (hne : status ≠ .success) :
    T.Leads rule d (multipartExit abort op [] status) :=
  Tie.leads_exit habort rfl (fun hok => absurd hok hne) fun _ => h

theorem Holds.leads_exit (h : T.Holds d op) (hne : status ≠ .success) :
    T.Leads rule d (multipartExit abort op [] status) :=
  h.abortable.leads_exit habort hne

end Exit

end Tie

end TfPsaCrypto
