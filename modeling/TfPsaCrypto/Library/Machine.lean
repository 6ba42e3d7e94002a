import Mathlib.Data.List.Basic

/-!
# Machines with outputs and their runs

A machine is a partial deterministic step: from a state and an action it gives the next state and
an output. A run records the trace, oldest first. `Run.invariant` may read the trace; `Run.event`
decomposes a run at one of its events.
-/

namespace Machine

variable {σ α ω : Type*}

abbrev StepFn (σ α ω : Type*) := σ → α → Option (σ × ω)

/-- `Run M s₀ tr s`: from `s₀` the machine performs the trace `tr` and ends in
`s`. Traces grow at the end. -/
inductive Run (M : StepFn σ α ω) (s₀ : σ) : List (α × ω) → σ → Prop
  | nil : Run M s₀ [] s₀
  | snoc {tr : List (α × ω)} {s s' : σ} {a : α} {o : ω} :
      Run M s₀ tr s → M s a = some (s', o) → Run M s₀ (tr ++ [(a, o)]) s'

variable {M : StepFn σ α ω} {s₀ s : σ} {tr : List (α × ω)}

/-- The invariant rule. `I` may read the trace, and the events of the run may
be restricted by `P`. -/
theorem Run.invariant {I : List (α × ω) → σ → Prop} {P : α × ω → Prop}
    (h₀ : I [] s₀)
    (hstep : ∀ tr s a s' o, I tr s → P (a, o) → M s a = some (s', o) → I (tr ++ [(a, o)]) s')
    (h : Run M s₀ tr s) (hP : ∀ e ∈ tr, P e) : I tr s := by
  induction h with
  | nil => exact h₀
  | @snoc tr s s' a o _ hs ih =>
    have hlast : (a, o) ∈ tr ++ [(a, o)] := by simp
    exact hstep tr s a s' o (ih fun e he => hP e (List.mem_append_left _ he)) (hP _ hlast) hs

theorem Run.state_invariant {I : σ → Prop} (h₀ : I s₀)
    (hstep : ∀ s a s' o, I s → M s a = some (s', o) → I s')
    (h : Run M s₀ tr s) : I s := by
  induction h with
  | nil => exact h₀
  | snoc _ hs ih => exact hstep _ _ _ _ ih hs

theorem Run.split {tr' : List (α × ω)} (h : Run M s₀ (tr ++ tr') s) :
    ∃ m, Run M s₀ tr m ∧ Run M m tr' s := by
  generalize hw : tr ++ tr' = whole at h
  induction h generalizing tr' with
  | nil =>
    obtain ⟨rfl, rfl⟩ := List.append_eq_nil_iff.mp hw
    exact ⟨s₀, .nil, .nil⟩
  | @snoc tr₀ m s' a o hr hs ih =>
    rcases List.eq_nil_or_concat tr' with rfl | ⟨front, last, rfl⟩
    · rw [List.append_nil] at hw
      exact ⟨s', hw ▸ hr.snoc hs, .nil⟩
    rw [List.concat_eq_append, ← List.append_assoc] at hw
    obtain ⟨rfl, hlast⟩ := List.append_inj' hw rfl
    obtain ⟨m', hpre, hpost⟩ := ih rfl
    rw [List.concat_eq_append, List.singleton_inj.mp hlast]
    exact ⟨m', hpre, hpost.snoc hs⟩

theorem Run.nil_inv (h : Run M s₀ [] s) : s = s₀ := by
  generalize hw : ([] : List (α × ω)) = empty at h
  cases h with
  | nil => rfl
  | snoc => simp at hw

theorem Run.snoc_inv {a : α} {o : ω} (h : Run M s₀ (tr ++ [(a, o)]) s) :
    ∃ m, Run M s₀ tr m ∧ M m a = some (s, o) := by
  generalize hw : tr ++ [(a, o)] = whole at h
  cases h with
  | nil => simp at hw
  | @snoc tr₀ m _ a' o' hr hs =>
    obtain ⟨rfl, hlast⟩ := List.append_inj' hw rfl
    cases hlast
    exact ⟨m, hr, hs⟩

theorem Run.cons_inv {a : α} {o : ω} (h : Run M s₀ ((a, o) :: tr) s) :
    ∃ m, M s₀ a = some (m, o) ∧ Run M m tr s := by
  have hsplit : Run M s₀ ([(a, o)] ++ tr) s := h
  obtain ⟨m, hfirst, hrest⟩ := hsplit.split
  have hsingle : Run M s₀ ([] ++ [(a, o)]) m := hfirst
  obtain ⟨m₀, hnil, hs⟩ := hsingle.snoc_inv
  rw [hnil.nil_inv] at hs
  exact ⟨m, hs, hrest⟩

theorem Run.event {pre post : List (α × ω)} {a : α} {o : ω}
    (h : Run M s₀ (pre ++ (a, o) :: post) s) :
    ∃ m m', Run M s₀ pre m ∧ M m a = some (m', o) ∧ Run M m' post s := by
  obtain ⟨m, hpre, hrest⟩ := h.split
  obtain ⟨m', hs, hpost⟩ := hrest.cons_inv
  exact ⟨m, m', hpre, hs, hpost⟩

/-! ## Simulation -/

/-- Where every step of `M` is a step of `N` from the abstract state, every run is a run of `N`.
`I` is an invariant of `M`, and the actions may be restricted by `P`. -/
theorem Run.simulate {τ β ω' : Type*} {N : StepFn τ β ω'} {I : σ → Prop} {P : α → Prop}
    {abs : σ → τ} {f : α → β} {g : ω → ω'} (h₀ : I s₀)
    (hstep : ∀ s a s' o, I s → P a → M s a = some (s', o) →
      I s' ∧ N (abs s) (f a) = some (abs s', g o))
    (h : Run M s₀ tr s) (hP : ∀ e ∈ tr, P e.1) :
    I s ∧ Run N (abs s₀) (tr.map (Prod.map f g)) (abs s) := by
  induction h with
  | nil => exact ⟨h₀, .nil⟩
  | @snoc tr s s' a o _ hs ih =>
    obtain ⟨hI, hrun⟩ := ih fun e he => hP e (List.mem_append_left _ he)
    obtain ⟨hI', hN⟩ := hstep s a s' o hI (hP (a, o) (by simp)) hs
    refine ⟨hI', ?_⟩
    rw [List.map_append]
    exact hrun.snoc hN

/-! ## Runs whose steps meet a condition -/

/-- The machine that performs only the steps that meet `C`, a condition on the
state before the step and the action. -/
def restrict (M : StepFn σ α ω) (C : σ → α → Prop) [∀ s a, Decidable (C s a)] :
    StepFn σ α ω :=
  fun s a => if C s a then M s a else none

variable {C : σ → α → Prop} [∀ s a, Decidable (C s a)]

theorem restrict_eq_some {s' : σ} {a : α} {o : ω} :
    restrict M C s a = some (s', o) ↔ C s a ∧ M s a = some (s', o) := by
  unfold restrict
  split <;> simp_all

theorem Run.of_restrict (h : Run (restrict M C) s₀ tr s) : Run M s₀ tr s := by
  induction h with
  | nil => exact .nil
  | snoc _ hs ih => exact ih.snoc (restrict_eq_some.mp hs).2

end Machine
