import Mathlib.Data.List.Range
import Mathlib.Data.List.Nodup

/-!
# Free lists threaded through an array

A free list of an array of length `n` starts at an index and goes from each element to the one
that `next` gives; an index that is not in the array ends it.
-/

namespace FreeList

variable {next next' : Nat → Nat} {n i j : Nat} {l : List Nat}

inductive Chain (next : Nat → Nat) (n : Nat) : Nat → List Nat → Prop
  | nil {i : Nat} : n ≤ i → Chain next n i []
  | cons {i : Nat} {l : List Nat} : i < n → Chain next n (next i) l → Chain next n i (i :: l)

theorem Chain.unique {l' : List Nat} (h : Chain next n i l) (h' : Chain next n i l') : l = l' := by
  induction h generalizing l' with
  | nil hle =>
    cases h' with
    | nil _ => rfl
    | cons hlt _ => exact absurd hlt (Nat.not_lt.mpr hle)
  | cons hlt _ ih =>
    cases h' with
    | nil hle => exact absurd hlt (Nat.not_lt.mpr hle)
    | cons _ htail => rw [ih htail]

theorem Chain.suffix (h : Chain next n i l) (hj : j ∈ l) :
    ∃ pre post, l = pre ++ j :: post ∧ Chain next n j (j :: post) := by
  induction h with
  | nil _ => exact absurd hj List.not_mem_nil
  | @cons i l hlt htail ih =>
    rcases List.mem_cons.mp hj with rfl | hmem
    · exact ⟨[], l, rfl, .cons hlt htail⟩
    · obtain ⟨pre, post, rfl, hsuffix⟩ := ih hmem
      exact ⟨i :: pre, post, rfl, hsuffix⟩

theorem Chain.nodup (h : Chain next n i l) : l.Nodup := by
  induction h with
  | nil _ => exact List.nodup_nil
  | @cons i l hlt htail ih =>
    rw [List.nodup_cons]
    refine ⟨fun hmem => ?_, ih⟩
    obtain ⟨pre, post, hl, hsuffix⟩ := htail.suffix hmem
    have heq := hsuffix.unique (.cons hlt htail)
    have hlen := congrArg List.length heq
    rw [hl] at hlen
    simp only [List.length_cons, List.length_append] at hlen
    omega

theorem Chain.congr (h : Chain next n i l) (heq : ∀ j ∈ l, next' j = next j) :
    Chain next' n i l := by
  induction h with
  | nil hle => exact .nil hle
  | @cons i l hlt htail ih =>
    refine .cons hlt ?_
    rw [heq i List.mem_cons_self]
    exact ih fun j hj => heq j (List.mem_cons_of_mem _ hj)

theorem Chain.all (h : ∀ j < n, next j = j + 1) (hi : i ≤ n) :
    Chain next n i (List.range' i (n - i)) := by
  generalize hk : n - i = k
  induction k generalizing i with
  | zero => exact .nil (by omega)
  | succ k ih =>
    rw [List.range'_succ]
    refine .cons (by omega) ?_
    rw [h i (by omega)]
    exact ih (by omega) (by omega)

theorem Chain.pop (h : Chain next n i l) (hi : i < n) (heq : ∀ j ≠ i, next' j = next j) :
    ∃ l', l = i :: l' ∧ i ∉ l' ∧ Chain next' n (next i) l' := by
  have hnodup := h.nodup
  cases h with
  | nil hle => exact absurd hi (Nat.not_lt.mpr hle)
  | @cons _ l' _ htail =>
    have hnot := (List.nodup_cons.mp hnodup).1
    refine ⟨l', rfl, hnot, htail.congr fun j hj => heq j ?_⟩
    rintro rfl
    exact hnot hj

theorem Chain.push (h : Chain next n i l) (hj : j < n) (hnot : j ∉ l)
    (hnext : next' j = i) (heq : ∀ k ≠ j, next' k = next k) : Chain next' n j (j :: l) := by
  refine .cons hj ?_
  rw [hnext]
  refine h.congr fun k hk => heq k ?_
  rintro rfl
  exact hnot hk

theorem Chain.of_le {i' : Nat} (h : Chain next n i l) (hi : n ≤ i) (hi' : n ≤ i') :
    Chain next n i' l := by
  cases h with
  | nil _ => exact .nil hi'
  | cons hlt _ => exact absurd hlt (Nat.not_lt.mpr hi)

end FreeList
