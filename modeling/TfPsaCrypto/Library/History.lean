import Mathlib.Data.List.Induction

/-!
# Histories

Logs in which every event is judged by the events before it (`Each`), and the part of a log from
its last reset on (`since`).
-/

namespace History

variable {α : Type*}

/-- Every event `a` of the log satisfies `Q pre a`, where `pre` is the log before
that event. -/
def Each (Q : List α → α → Prop) (l : List α) : Prop := ∀ pre a post, l = pre ++ a :: post → Q pre a

variable {Q : List α → α → Prop} {l : List α} {x : α}

@[simp] theorem each_nil : Each Q [] := by
  intro pre a post h
  simp at h

theorem each_append_singleton : Each Q (l ++ [x]) ↔ Each Q l ∧ Q l x := by
  constructor
  · intro h
    refine ⟨fun pre a post hl => h pre a (post ++ [x]) ?_, h l x [] rfl⟩
    rw [hl]
    simp
  · rintro ⟨hl, hx⟩ pre a post h
    rcases List.eq_nil_or_concat post with rfl | ⟨front, last, rfl⟩
    · obtain ⟨rfl, hlast⟩ := List.append_inj' h rfl
      rwa [← List.singleton_inj.mp hlast]
    · rw [List.concat_eq_append, ← List.cons_append, ← List.append_assoc] at h
      exact hl pre a front (List.append_inj' h rfl).1

/-- The log from its last event that satisfies `p` on; the whole log if there is none. -/
def since (p : α → Bool) (l : List α) : List α :=
  l.foldl (fun acc x => if p x then [x] else acc ++ [x]) []

variable {p : α → Bool}

@[simp] theorem since_nil : since p [] = [] := rfl

theorem since_append_singleton :
    since p (l ++ [x]) = if p x then [x] else since p l ++ [x] := by
  simp [since]

end History
