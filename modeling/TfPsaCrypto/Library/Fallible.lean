import Mathlib.Data.List.Basic

/-!
# Programs that fail and keep their state

A program reads and writes a state and ends with a value or an error; what it wrote before an
error stays. `Triple` has a postcondition for each.
-/

universe u

/-- A program over the state `σ` with errors `ε`. -/
def Fallible (σ ε α : Type*) := σ → Except ε α × σ

namespace Fallible

variable {σ ε : Type*} {α β : Type u}

def ret (a : α) : Fallible σ ε α := fun s => (.ok a, s)

def andThen (m : Fallible σ ε α) (f : α → Fallible σ ε β) : Fallible σ ε β := fun s =>
  match m s with
  | (.ok a, s') => f a s'
  | (.error e, s') => (.error e, s')

instance : Monad (Fallible σ ε) where
  pure := ret
  bind := andThen

def read : Fallible σ ε σ := fun s => (.ok s, s)

def update (f : σ → σ) : Fallible σ ε Unit := fun s => (.ok (), f s)

def fail (e : ε) : Fallible σ ε α := fun s => (.error e, s)

def ofExcept : Except ε α → Fallible σ ε α
  | .ok a => pure a
  | .error e => fail e

/-! ## Equations -/

section Equations

variable {m : Fallible σ ε α} {f : α → Fallible σ ε β} {s s' : σ} {a : α} {e : ε}

@[simp] theorem read_apply (s : σ) : (read : Fallible σ ε σ) s = (.ok s, s) := rfl

@[simp] theorem update_apply (f : σ → σ) (s : σ) :
    (update f : Fallible σ ε Unit) s = (.ok (), f s) := rfl

@[simp] theorem fail_apply (e : ε) (s : σ) : (fail e : Fallible σ ε α) s = (.error e, s) := rfl

theorem bind_ok (h : m s = (.ok a, s')) : (m >>= f) s = f a s' := by
  show andThen m f s = f a s'
  rw [andThen, h]

theorem bind_error (h : m s = (.error e, s')) : (m >>= f) s = (.error e, s') := by
  show andThen m f s = _
  rw [andThen, h]

theorem bind_eq_ok {b : β} {s'' : σ} (h : (m >>= f) s = (.ok b, s'')) :
    ∃ a s', m s = (.ok a, s') ∧ f a s' = (.ok b, s'') := by
  rcases hrun : m s with ⟨err | a, s'⟩
  · rw [bind_error hrun] at h
    cases h
  · rw [bind_ok hrun] at h
    exact ⟨a, s', rfl, h⟩

@[simp] theorem ofExcept_ok (a : α) : (ofExcept (.ok a) : Fallible σ ε α) = pure a := rfl

@[simp] theorem ofExcept_error (e : ε) : (ofExcept (.error e) : Fallible σ ε α) = fail e := rfl

theorem bind_eq_error_iff : ((m >>= f) s).1 = .error e ↔
    (m s).1 = .error e ∨ ∃ a s', m s = (.ok a, s') ∧ (f a s').1 = .error e := by
  rcases hrun : m s with ⟨err | a, s'⟩
  · rw [bind_error hrun]
    constructor
    · rintro ⟨⟩
      exact .inl rfl
    · rintro (⟨⟨⟩⟩ | ⟨_, _, ⟨⟩, _⟩)
      rfl
  · rw [bind_ok hrun]
    constructor
    · intro h
      exact .inr ⟨a, s', rfl, h⟩
    · rintro (⟨⟨⟩⟩ | ⟨_, _, ⟨⟩, h⟩)
      exact h

theorem ofExcept_apply (x : Except ε α) (s : σ) : (ofExcept x : Fallible σ ε α) s = (x, s) := by
  rcases x with err | a <;> rfl

theorem ofExcept_bind_ok {x : Except ε α} (h : x = .ok a) : (ofExcept x >>= f) s = f a s := by
  rw [h, ofExcept_ok]
  exact bind_ok rfl

end Equations

/-! ## Triples -/

/-- From `P` the program ends with a value and a state in `Q`, or an error and a state in `E`. -/
def Triple (P : σ → Prop) (m : Fallible σ ε α) (Q : α → σ → Prop) (E : ε → σ → Prop) : Prop :=
  ∀ s, P s → (∀ a s', m s = (.ok a, s') → Q a s') ∧ ∀ e s', m s = (.error e, s') → E e s'

section Triples

variable {P P' : σ → Prop} {Q Q' : α → σ → Prop} {R : β → σ → Prop} {E E' : ε → σ → Prop}
  {m : Fallible σ ε α} {f : α → Fallible σ ε β}

theorem Triple.pure {a : α} (h : ∀ s, P s → Q a s) :
    Triple P (Pure.pure a : Fallible σ ε α) Q E := by
  intro s hs
  constructor
  · rintro b s' ⟨⟩
    exact h s hs
  · rintro e s' ⟨⟩

theorem Triple.read {Q : σ → σ → Prop} (h : ∀ s, P s → Q s s) :
    Triple P (read : Fallible σ ε σ) Q E := by
  intro s hs
  constructor
  · rintro b s' ⟨⟩
    exact h s hs
  · rintro e s' ⟨⟩

theorem Triple.update {Q : Unit → σ → Prop} {g : σ → σ} (h : ∀ s, P s → Q () (g s)) :
    Triple P (update g : Fallible σ ε Unit) Q E := by
  intro s hs
  constructor
  · rintro b s' ⟨⟩
    exact h s hs
  · rintro e s' ⟨⟩

theorem Triple.fail {e : ε} (h : ∀ s, P s → E e s) :
    Triple P (fail e : Fallible σ ε α) Q E := by
  intro s hs
  constructor
  · rintro a s' ⟨⟩
  · rintro e' s' ⟨⟩
    exact h s hs

theorem Triple.ofExcept {x : Except ε α} (h : ∀ a s, x = .ok a → P s → Q a s)
    (h' : ∀ e s, x = .error e → P s → E e s) :
    Triple P (ofExcept x : Fallible σ ε α) Q E := by
  intro s hs
  rw [ofExcept_apply]
  constructor
  · rintro a s' ⟨⟩
    exact h a s rfl hs
  · rintro e s' ⟨⟩
    exact h' e s rfl hs

theorem Triple.bind (hm : Triple P m Q E) (hf : ∀ a, Triple (Q a) (f a) R E) :
    Triple P (m >>= f) R E := by
  intro s hs
  obtain ⟨hok, herror⟩ := hm s hs
  rcases hrun : m s with ⟨a | a, s'⟩
  · rw [bind_error hrun]
    constructor
    · rintro b s'' ⟨⟩
    · rintro e s'' ⟨⟩
      exact herror _ _ hrun
  · rw [bind_ok hrun]
    exact hf a s' (hok a s' hrun)

theorem Triple.imp (h : Triple P m Q E) (hP : ∀ s, P' s → P s) (hQ : ∀ a s, Q a s → Q' a s)
    (hE : ∀ e s, E e s → E' e s) : Triple P' m Q' E' := by
  intro s hs
  obtain ⟨hok, herror⟩ := h s (hP s hs)
  exact ⟨fun a s' hrun => hQ a s' (hok a s' hrun), fun e s' hrun => hE e s' (herror e s' hrun)⟩

theorem Triple.pre (h : Triple P m Q E) (hP : ∀ s, P' s → P s) : Triple P' m Q E :=
  h.imp hP (fun _ _ h => h) fun _ _ h => h

theorem Triple.ite {c : Prop} [Decidable c] {m' : Fallible σ ε α}
    (hm : c → Triple P m Q E) (hm' : ¬ c → Triple P m' Q E) :
    Triple P (if c then m else m') Q E := by
  split
  · next h => exact hm h
  · next h => exact hm' h

theorem Triple.of_forall (h : ∀ s₀, P s₀ → Triple (· = s₀) m Q E) : Triple P m Q E := by
  intro s hs
  exact h s hs s rfl

end Triples

theorem Triple.read_bind {σ : Type u} {ε : Type*} {s₀ : σ} {f : σ → Fallible σ ε α}
    {R : α → σ → Prop} {E : ε → σ → Prop} (h : Triple (· = s₀) (f s₀) R E) :
    Triple (· = s₀) (Fallible.read >>= f) R E := by
  rintro s rfl
  rw [bind_ok (read_apply s)]
  exact h s rfl

/-! ## Errors that a program never has -/

/-- No run of the program fails with `e`. -/
def Never (m : Fallible σ ε α) (e : ε) : Prop := ∀ s, (m s).1 ≠ .error e

section Never

variable {m m' : Fallible σ ε α} {f : α → Fallible σ ε β} {e e' : ε}

theorem Never.pure (a : α) : Never (Pure.pure a : Fallible σ ε α) e := by
  rintro s ⟨⟩

theorem Never.read : Never (read : Fallible σ ε σ) e := by
  rintro s ⟨⟩

theorem Never.update (g : σ → σ) : Never (update g : Fallible σ ε Unit) e := by
  rintro s ⟨⟩

theorem Never.fail (h : e' ≠ e) : Never (fail e' : Fallible σ ε α) e := by
  rintro s ⟨⟩
  exact h rfl

theorem Never.ofExcept {x : Except ε α} (h : x ≠ .error e) :
    Never (ofExcept x : Fallible σ ε α) e := by
  intro s hs
  rw [ofExcept_apply] at hs
  exact h hs

theorem Never.bind (hm : Never m e) (hf : ∀ a, Never (f a) e) : Never (m >>= f) e := by
  intro s hs
  rcases bind_eq_error_iff.mp hs with h | ⟨a, s', _, h⟩
  · exact hm s h
  · exact hf a s' h

theorem Never.ite {c : Prop} [Decidable c] (hm : c → Never m e) (hm' : ¬ c → Never m' e) :
    Never (if c then m else m') e := by
  split
  · next h => exact hm h
  · next h => exact hm' h

end Never

end Fallible
