import Mathlib.Data.List.Nodup

/-!
# Doubly linked lists

The two links of each element of a list without repetitions, and how they change where an element
is put between two parts of the list or taken out.
-/

namespace DoublyLinked

variable {α : Type} [DecidableEq α]

/-- The element after `x`. -/
def nextOf : List α → α → Option α
  | [], _ => none
  | a :: l, x => if x = a then l.head? else nextOf l x

/-- The element before `x`. -/
def prevOf : List α → α → Option α
  | a :: b :: l, x => if x = b then some a else prevOf (b :: l) x
  | _, _ => none

variable {x : α}

theorem nextOf_eq_none {l : List α} (h : x ∉ l) : nextOf l x = none := by
  induction l with
  | nil => rfl
  | cons a l ih =>
    rw [List.mem_cons, not_or] at h
    rw [nextOf, if_neg h.1, ih h.2]

theorem prevOf_eq_none {l : List α} (h : x ∉ l) : prevOf l x = none := by
  induction l with
  | nil => rfl
  | cons a l ih =>
    rw [List.mem_cons, not_or] at h
    cases l with
    | nil => rfl
    | cons b l =>
      have hb := (not_or.mp (List.mem_cons.not.mp h.2)).1
      rw [prevOf, if_neg hb, ih h.2]

variable {p q : List α}

theorem nextOf_last (hp : p.Nodup) (hx : p.getLast? = some x) : nextOf (p ++ q) x = q.head? := by
  induction p with
  | nil => cases hx
  | cons a p ih =>
    cases p with
    | nil =>
      obtain rfl : a = x := by simpa using hx
      rw [List.cons_append, nextOf, if_pos rfl, List.nil_append]
    | cons b p =>
      rw [List.getLast?_cons_cons] at hx
      have hne : x ≠ a := by
        rintro rfl
        exact (List.nodup_cons.mp hp).1 (List.mem_of_getLast? hx)
      rw [List.cons_append, nextOf, if_neg hne, ih (List.nodup_cons.mp hp).2 hx]

theorem prevOf_head (hpq : x ∉ p) (hx : q.head? = some x) (hq : q.Nodup) :
    prevOf (p ++ q) x = p.getLast? := by
  obtain ⟨q', rfl⟩ : ∃ q', q = x :: q' := by
    cases q with
    | nil => cases hx
    | cons y q' =>
      cases hx
      exact ⟨q', rfl⟩
  induction p with
  | nil =>
    cases q' with
    | nil => rfl
    | cons z q' =>
      have hnot : x ∉ z :: q' := (List.nodup_cons.mp hq).1
      have hne : x ≠ z := fun h => hnot (List.mem_cons.mpr (.inl h))
      rw [List.nil_append, prevOf, if_neg hne, prevOf_eq_none hnot]
      rfl
  | cons a p ih =>
    rw [List.mem_cons, not_or] at hpq
    cases p with
    | nil => rw [List.cons_append, List.nil_append, prevOf, if_pos rfl]; rfl
    | cons b p =>
      have hb := (not_or.mp (List.mem_cons.not.mp hpq.2)).1
      rw [List.cons_append, List.cons_append, prevOf, if_neg hb, ← List.cons_append, ih hpq.2,
        List.getLast?_cons_cons]

theorem nextOf_insert {n : α} (h : (p ++ n :: q).Nodup) :
    nextOf (p ++ n :: q) x =
      if x = n then q.head? else if p.getLast? = some x then some n else nextOf (p ++ q) x := by
  have hn : n ∉ p ++ q := (List.nodup_middle.mp h).notMem
  split
  · next hx =>
    subst hx
    induction p with
    | nil => rw [List.nil_append, nextOf, if_pos rfl]
    | cons a p ih =>
      have hne : x ≠ a := fun heq => hn (heq ▸ List.mem_cons_self)
      rw [List.cons_append, nextOf, if_neg hne]
      exact ih (List.nodup_cons.mp h).2 fun hmem => hn (List.mem_cons_of_mem _ hmem)
  next hx =>
  split
  · next hlast => exact nextOf_last (List.Nodup.of_append_left h) hlast
  next hlast =>
  induction p with
  | nil => rw [List.nil_append, nextOf, if_neg hx, List.nil_append]
  | cons a p ih =>
    rw [List.cons_append, List.cons_append, nextOf, nextOf]
    by_cases hxa : x = a
    · subst hxa
      rw [if_pos rfl, if_pos rfl]
      cases p with
      | nil => exact absurd rfl hlast
      | cons b p => rfl
    · rw [if_neg hxa, if_neg hxa]
      apply ih (List.nodup_cons.mp h).2
      · exact fun hmem => hn (List.mem_cons_of_mem _ hmem)
      · intro hp
        cases p with
        | nil => cases hp
        | cons b p => exact hlast (by rw [List.getLast?_cons_cons, hp])

theorem prevOf_insert {n : α} (h : (p ++ n :: q).Nodup) :
    prevOf (p ++ n :: q) x =
      if x = n then p.getLast? else if q.head? = some x then some n else prevOf (p ++ q) x := by
  have hn : n ∉ p ++ q := (List.nodup_middle.mp h).notMem
  split
  · next hx =>
    subst hx
    exact prevOf_head (fun hmem => hn (List.mem_append_left _ hmem)) rfl
      (List.Nodup.of_append_right h)
  next hx =>
  split
  · next hhead =>
    obtain ⟨q', rfl⟩ : ∃ q', q = x :: q' := by
      cases q with
      | nil => cases hhead
      | cons y q' =>
        cases hhead
        exact ⟨q', rfl⟩
    have hp : x ∉ p ++ [n] := by
      rw [← List.singleton_append, ← List.append_assoc] at h
      exact fun hmem => List.disjoint_of_nodup_append h hmem List.mem_cons_self
    have hq : (x :: q').Nodup := (List.nodup_cons.mp (List.Nodup.of_append_right h)).2
    rw [← List.singleton_append, ← List.append_assoc, prevOf_head hp rfl hq, List.getLast?_concat]
  next hhead =>
  induction p with
  | nil =>
    cases q with
    | nil => rfl
    | cons y q =>
      have hy : x ≠ y := fun heq => hhead (by rw [heq]; rfl)
      rw [List.nil_append, List.nil_append, prevOf, if_neg hy]
  | cons a p ih =>
    have ih' := ih (List.nodup_cons.mp h).2 fun hmem => hn (List.mem_cons_of_mem _ hmem)
    cases p with
    | nil =>
      cases q with
      | nil =>
        rw [List.cons_append, List.nil_append, prevOf, if_neg hx]
        rfl
      | cons y q =>
        have hy : x ≠ y := fun heq => hhead (by rw [heq]; rfl)
        rw [List.cons_append, List.nil_append, prevOf, if_neg hx, prevOf, if_neg hy,
          List.cons_append, List.nil_append, prevOf, if_neg hy]
    | cons b p =>
      simp only [List.cons_append, prevOf] at ih' ⊢
      split
      · rfl
      · exact ih'

/-! ## Links in memory -/

/-- The links of the elements of `l`, where an element that is not in `l` has none. -/
structure Linked (next prev : α → Option α) (first : Option α) (l : List α) : Prop where
  nodup : l.Nodup
  next : ∀ x, next x = nextOf l x
  prev : ∀ x, prev x = prevOf l x
  first : first = l.head?

variable {next prev next' prev' : α → Option α} {first first' : Option α} {f g l : List α}
  {c n : α}

theorem Linked.next_at (h : Linked next prev first (f ++ c :: g)) : next c = g.head? := by
  rw [h.next, nextOf_insert h.nodup, if_pos rfl]

theorem Linked.prev_at (h : Linked next prev first (f ++ c :: g)) : prev c = f.getLast? := by
  rw [h.prev, prevOf_insert h.nodup, if_pos rfl]

theorem Linked.of_notMem (h : Linked next prev first l) (hc : c ∉ l) :
    next c = none ∧ prev c = none := by
  rw [h.next, h.prev]
  exact ⟨nextOf_eq_none hc, prevOf_eq_none hc⟩

theorem Linked.congr (h : Linked next prev first l) (hnext : ∀ x, next' x = next x)
    (hprev : ∀ x, prev' x = prev x) : Linked next' prev' first l :=
  ⟨h.nodup, fun x => (hnext x).trans (h.next x), fun x => (hprev x).trans (h.prev x), h.first⟩

theorem Linked.neighbours (h : Linked next prev first (f ++ c :: g)) :
    prev c ≠ some c ∧ next c ≠ some c ∧ ∀ x, ¬ (prev c = some x ∧ next c = some x) := by
  have hnot := (List.nodup_middle.mp h.nodup).notMem
  have hfg := (List.nodup_middle.mp h.nodup).of_cons
  rw [h.next_at, h.prev_at]
  refine ⟨fun hx => ?_, fun hx => ?_, fun x hx => ?_⟩
  · exact hnot (List.mem_append_left _ (List.mem_of_getLast? hx))
  · exact hnot (List.mem_append_right _ (List.mem_of_head? hx))
  · exact List.disjoint_of_nodup_append hfg (List.mem_of_getLast? hx.1) (List.mem_of_head? hx.2)

theorem Linked.mem (h : Linked next prev first l) :
    (∀ x y, next x = some y → y ∈ l) ∧ (∀ x y, prev x = some y → y ∈ l) ∧
      ∀ y, first = some y → y ∈ l := by
  refine ⟨fun x y hy => ?_, fun x y hy => ?_, fun y hy => ?_⟩
  · by_cases hx : x ∈ l
    · obtain ⟨f, g, rfl⟩ := List.append_of_mem hx
      rw [h.next_at] at hy
      exact List.mem_append_right _ (List.mem_cons_of_mem _ (List.mem_of_head? hy))
    · rw [(h.of_notMem hx).1] at hy
      cases hy
  · by_cases hx : x ∈ l
    · obtain ⟨f, g, rfl⟩ := List.append_of_mem hx
      rw [h.prev_at] at hy
      exact List.mem_append_left _ (List.mem_of_getLast? hy)
    · rw [(h.of_notMem hx).2] at hy
      cases hy
  · rw [h.first] at hy
    exact List.mem_of_head? hy

theorem Linked.inverse (h : Linked next prev first l) (x y : α) :
    next x = some y ↔ prev y = some x := by
  constructor
  · intro hy
    by_cases hx : x ∈ l
    · obtain ⟨f, g, rfl⟩ := List.append_of_mem hx
      rw [h.next_at] at hy
      obtain ⟨g', rfl⟩ := List.head?_eq_some_iff.mp hy
      rw [← List.singleton_append, ← List.append_assoc] at h
      rw [h.prev_at, List.getLast?_concat]
    · rw [(h.of_notMem hx).1] at hy
      cases hy
  · intro hx
    by_cases hy : y ∈ l
    · obtain ⟨f, g, rfl⟩ := List.append_of_mem hy
      rw [h.prev_at] at hx
      obtain ⟨f', rfl⟩ := List.getLast?_eq_some_iff.mp hx
      rw [List.append_assoc, List.singleton_append] at h
      rw [h.next_at, List.head?_cons]
    · rw [(h.of_notMem hy).2] at hx
      cases hx

omit [DecidableEq α] in
theorem head?_append_of_getLast? :
    (f ++ g).head? = if f.getLast? = none then g.head? else f.head? := by
  cases f with
  | nil => rfl
  | cons a f => simp

theorem Linked.unlink (h : Linked next prev first (f ++ c :: g))
    (hnext : ∀ x, next' x = if x = c then none else if prev c = some x then next c else next x)
    (hprev : ∀ x, prev' x = if x = c then none else if next c = some x then prev c else prev x)
    (hfirst : first' = if prev c = none then next c else first) :
    Linked next' prev' first' (f ++ g) := by
  have hnot := (List.nodup_middle.mp h.nodup).notMem
  have hfg := (List.nodup_middle.mp h.nodup).of_cons
  rw [h.next_at, h.prev_at] at hfirst
  refine ⟨hfg, fun x => ?_, fun x => ?_, ?_⟩
  · rw [hnext, h.next_at, h.prev_at, h.next, nextOf_insert h.nodup]
    split
    · next hx => rw [hx, nextOf_eq_none hnot]
    split
    · next hlast => rw [nextOf_last hfg.of_append_left hlast]
    · rfl
  · rw [hprev, h.next_at, h.prev_at, h.prev, prevOf_insert h.nodup]
    split
    · next hx => rw [hx, prevOf_eq_none hnot]
    split
    · next hhead =>
      have hx := fun hmem => List.disjoint_of_nodup_append hfg hmem (List.mem_of_head? hhead)
      rw [prevOf_head hx hhead hfg.of_append_right]
    · rfl
  · rw [hfirst, h.first, head?_append_of_getLast?, head?_append_of_getLast?]
    split <;> rfl

theorem Linked.replace (h : Linked next prev first (f ++ c :: g)) (hn : n ∉ f ++ g)
    (hnext : ∀ x, next' x =
      if x = n then next c else if x = c then none else if prev c = some x then some n
      else next x)
    (hprev : ∀ x, prev' x =
      if x = n then prev c else if x = c then none else if next c = some x then some n
      else prev x)
    (hfirst : first' = if prev c = none then some n else first) :
    Linked next' prev' first' (f ++ n :: g) := by
  have hnot := (List.nodup_middle.mp h.nodup).notMem
  have hfg := (List.nodup_middle.mp h.nodup).of_cons
  have hnodup : (f ++ n :: g).Nodup := List.nodup_middle.mpr (List.nodup_cons.mpr ⟨hn, hfg⟩)
  rw [h.prev_at] at hfirst
  refine ⟨hnodup, fun x => ?_, fun x => ?_, ?_⟩
  · rw [hnext, h.next_at, h.prev_at, h.next, nextOf_insert h.nodup, nextOf_insert hnodup]
    split
    · rfl
    split
    · next hx =>
      rw [hx, if_neg fun hlast => hnot (List.mem_append_left _ (List.mem_of_getLast? hlast)),
        nextOf_eq_none hnot]
    split <;> rfl
  · rw [hprev, h.next_at, h.prev_at, h.prev, prevOf_insert h.nodup, prevOf_insert hnodup]
    split
    · rfl
    split
    · next hx =>
      rw [hx, if_neg fun hhead => hnot (List.mem_append_right _ (List.mem_of_head? hhead)),
        prevOf_eq_none hnot]
    split <;> rfl
  · rw [hfirst, h.first, head?_append_of_getLast?, head?_append_of_getLast?]
    split <;> rfl

theorem Linked.insertAfter (h : Linked next prev first (f ++ c :: g)) (hn : n ∉ f ++ c :: g)
    (hnext : ∀ x, next' x = if x = n then next c else if x = c then some n else next x)
    (hprev : ∀ x, prev' x = if x = n then some c else if next c = some x then some n else prev x) :
    Linked next' prev' first (f ++ c :: n :: g) := by
  have hsplit : f ++ c :: n :: g = (f ++ [c]) ++ n :: g := by simp
  have hlist : f ++ c :: g = (f ++ [c]) ++ g := by simp
  have hnodup : ((f ++ [c]) ++ n :: g).Nodup :=
    List.nodup_middle.mpr (List.nodup_cons.mpr ⟨hlist ▸ hn, hlist ▸ h.nodup⟩)
  rw [hsplit]
  refine ⟨hnodup, fun x => ?_, fun x => ?_, ?_⟩
  · rw [hnext, h.next_at, h.next, nextOf_insert hnodup, List.getLast?_concat, hlist]
    simp only [Option.some.injEq, eq_comm]
  · rw [hprev, h.next_at, h.prev, prevOf_insert hnodup, List.getLast?_concat, hlist]
  · rw [h.first, hlist, List.append_assoc, List.append_assoc]
    cases f <;> rfl

theorem Linked.push (h : Linked next prev first l) (hn : n ∉ l)
    (hnext : ∀ x, next' x = if x = n then first else next x)
    (hprev : ∀ x, prev' x = if x = n then none else if first = some x then some n else prev x) :
    Linked next' prev' (some n) (n :: l) := by
  have hnodup : ([] ++ n :: l).Nodup := List.nodup_cons.mpr ⟨hn, h.nodup⟩
  refine ⟨hnodup, fun x => ?_, fun x => ?_, rfl⟩
  · rw [hnext, h.next, h.first, ← List.nil_append (n :: l), nextOf_insert hnodup]
    rfl
  · rw [hprev, h.prev, h.first, ← List.nil_append (n :: l), prevOf_insert hnodup]
    rfl

end DoublyLinked
