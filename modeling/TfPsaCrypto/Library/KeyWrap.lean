import Mathlib.Data.List.Rotate
import Mathlib.Logic.Equiv.Defs

/-!
# Key wrapping

The wrapping function `W` of NIST SP 800-38F and its inverse, over any type of semiblocks.
-/

namespace KeyWrap

variable {α : Type*} (round : Nat → (α × α ≃ α × α))

/-! ## The shift register -/

/-- Step `t` of `W`. -/
def shift (t : Nat) : α × List α → α × List α
  | (a, []) => (a, [])
  | (a, r :: rs) => ((round t (a, r)).1, rs ++ [(round t (a, r)).2])

/-- Steps 1 to `k`. -/
def shifts : Nat → α × List α → α × List α
  | 0, st => st
  | k + 1, st => shift round (k + 1) (shifts k st)

def wrap (st : α × List α) : α × List α := shifts round (6 * st.2.length) st

/-- Step `t` of the inverse of `W`. -/
def unshift (t : Nat) (st : α × List α) : α × List α :=
  match st.2.getLast? with
  | none => st
  | some r => (((round t).symm (st.1, r)).1, ((round t).symm (st.1, r)).2 :: st.2.dropLast)

/-- Steps `k` to 1. -/
def unshifts : Nat → α × List α → α × List α
  | 0, st => st
  | k + 1, st => unshifts k (unshift round (k + 1) st)

/-- The inverse of `W`. -/
def unwrap (st : α × List α) : α × List α := unshifts round (6 * st.2.length) st

variable {round}

theorem symm_round (t : Nat) (p : α × α) :
    (round t).symm ((round t p).1, (round t p).2) = p :=
  (round t).symm_apply_apply p

theorem unshift_shift (t : Nat) (st : α × List α) : unshift round t (shift round t st) = st := by
  rcases st with ⟨a, rs⟩
  cases rs with
  | nil => rfl
  | cons r rs =>
    unfold unshift shift
    simp only [List.getLast?_append, List.getLast?_singleton, Option.some_or, symm_round,
      List.dropLast_concat]

theorem unshifts_shifts (k : Nat) (st : α × List α) :
    unshifts round k (shifts round k st) = st := by
  induction k with
  | zero => rfl
  | succ k ih => rw [shifts, unshifts, unshift_shift, ih]

theorem length_shifts (k : Nat) (st : α × List α) :
    (shifts round k st).2.length = st.2.length := by
  induction k with
  | zero => rfl
  | succ k ih =>
    rw [shifts, ← ih]
    rcases shifts round k st with ⟨a, rs⟩
    cases rs with
    | nil => rfl
    | cons r rs => simp [shift]

theorem unwrap_wrap (st : α × List α) : unwrap round (wrap round st) = st := by
  unfold unwrap wrap
  rw [length_shifts, unshifts_shifts]

/-! ## In place -/

variable (round)

/-- The semiblock, of `n`, that step `t` works on. -/
def visited (n t : Nat) : Nat := (t - 1) % n

/-- Step `t`, with the semiblocks left in their places. -/
def inPlace (t : Nat) (st : α × List α) : α × List α :=
  match st.2[visited st.2.length t]? with
  | none => st
  | some r => ((round t (st.1, r)).1, st.2.set (visited st.2.length t) (round t (st.1, r)).2)

/-- Steps 1 to `k`. -/
def upwards : Nat → α × List α → α × List α
  | 0, st => st
  | k + 1, st => inPlace round (k + 1) (upwards k st)

/-- Steps `k` to 1. -/
def downwards : Nat → α × List α → α × List α
  | 0, st => st
  | k + 1, st => downwards k (inPlace round (k + 1) st)

variable {round}

@[simp] theorem length_inPlace (t : Nat) (st : α × List α) :
    (inPlace round t st).2.length = st.2.length := by
  unfold inPlace
  split
  · rfl
  · exact List.length_set

@[simp] theorem length_upwards (k : Nat) (st : α × List α) :
    (upwards round k st).2.length = st.2.length := by
  induction k with
  | zero => rfl
  | succ k ih => rw [upwards, length_inPlace, ih]

@[simp] theorem length_downwards (k : Nat) (st : α × List α) :
    (downwards round k st).2.length = st.2.length := by
  induction k generalizing st with
  | zero => rfl
  | succ k ih => rw [downwards, ih, length_inPlace]

theorem inPlace_symm (t : Nat) (st : α × List α) :
    inPlace (fun t => (round t).symm) t (inPlace round t st) = st := by
  rcases st with ⟨a, rs⟩
  by_cases hi : visited rs.length t < rs.length
  · have hstep : inPlace round t (a, rs) =
        ((round t (a, rs[visited rs.length t])).1,
          rs.set (visited rs.length t) (round t (a, rs[visited rs.length t])).2) := by
      unfold inPlace
      simp only [List.getElem?_eq_getElem hi]
    rw [hstep]
    unfold inPlace
    simp only [List.length_set, List.getElem?_set_self hi, symm_round, List.set_set,
      List.set_getElem_self]
  · have hnone : rs[visited rs.length t]? = none := List.getElem?_eq_none (Nat.le_of_not_lt hi)
    have hstep : inPlace round t (a, rs) = (a, rs) := by
      unfold inPlace
      simp only [hnone]
    rw [hstep]
    unfold inPlace
    simp only [hnone]

theorem upwards_downwards (k : Nat) (st : α × List α) :
    upwards round k (downwards (fun t => (round t).symm) k st) = st := by
  induction k generalizing st with
  | zero => rfl
  | succ k ih =>
    rw [downwards, upwards, ih]
    exact @inPlace_symm _ (fun t => (round t).symm) (k + 1) st

theorem shifts_eq (k : Nat) (st : α × List α) :
    shifts round k st = ((upwards round k st).1, (upwards round k st).2.rotate k) := by
  induction k with
  | zero => simp [shifts, upwards]
  | succ k ih =>
    rw [shifts, ih, upwards]
    rcases hup : upwards round k st with ⟨a, rs⟩
    by_cases hnil : rs = []
    · subst hnil
      simp [shift, inPlace]
    have hpos : 0 < rs.length := List.length_pos_iff.mpr hnil
    have hlt : k % rs.length < rs.length := Nat.mod_lt _ hpos
    have hstep : inPlace round (k + 1) (a, rs) =
        ((round (k + 1) (a, rs[k % rs.length])).1,
          rs.set (k % rs.length) (round (k + 1) (a, rs[k % rs.length])).2) := by
      unfold inPlace visited
      simp only [Nat.add_sub_cancel, List.getElem?_eq_getElem hlt]
    have hhead : rs.rotate k = rs[k % rs.length] :: (rs.rotate k).tail := by
      have hrot : 0 < (rs.rotate k).length := by rwa [List.length_rotate]
      have h0 : (rs.rotate k)[0] = rs[k % rs.length] := by
        simp only [List.getElem_rotate, Nat.zero_add]
      cases hrotated : rs.rotate k with
      | nil =>
        rw [hrotated] at hrot
        exact absurd hrot (Nat.lt_irrefl 0)
      | cons r rest =>
        simp only [hrotated, List.getElem_cons_zero] at h0
        rw [h0, List.tail_cons]
    rw [hstep]
    rw [hhead, shift]
    refine Prod.ext rfl ?_
    apply List.ext_getElem
    · simp only [List.length_append, List.length_tail, List.length_rotate,
        List.length_singleton, List.length_set]
      omega
    intro i hi hi'
    simp only [List.length_append, List.length_tail, List.length_rotate,
      List.length_singleton] at hi
    rw [List.getElem_rotate]
    simp only [List.length_set, List.getElem_set]
    by_cases hlast : i = rs.length - 1
    · have hwrap : (i + (k + 1)) % rs.length = k % rs.length := by
        rw [show i + (k + 1) = k + rs.length by omega, Nat.add_mod_right]
      rw [List.getElem_append_right (by simp; omega), List.getElem_singleton, if_pos hwrap.symm]
    · have hne : ¬ k % rs.length = (i + (k + 1)) % rs.length := by
        intro heq
        have hdiff := Nat.sub_mod_eq_zero_of_mod_eq heq.symm
        rw [show i + (k + 1) - k = i + 1 by omega, Nat.mod_eq_of_lt (by omega)] at hdiff
        omega
      rw [List.getElem_append_left (by simp; omega), List.getElem_tail,
        List.getElem_rotate, if_neg hne]
      congr 2
      omega

theorem wrap_eq (st : α × List α) : wrap round st = upwards round (6 * st.2.length) st := by
  unfold wrap
  rw [shifts_eq]
  have hlen := @length_upwards _ round (6 * st.2.length) st
  generalize upwards round (6 * st.2.length) st = steps at hlen ⊢
  rw [← hlen, Nat.mul_comm, List.rotate_length_mul]

theorem unwrap_eq (st : α × List α) :
    unwrap round st = downwards (fun t => (round t).symm) (6 * st.2.length) st := by
  have hst := @upwards_downwards _ round (6 * st.2.length) st
  generalize hdown : downwards (fun t => (round t).symm) (6 * st.2.length) st = inner at hst ⊢
  have hlen : inner.2.length = st.2.length := by
    rw [← hdown, length_downwards]
  rw [← hst, ← hlen, ← wrap_eq, unwrap_wrap]

end KeyWrap
