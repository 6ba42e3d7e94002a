import Mathlib.Data.List.Basic
import Mathlib.Tactic.Ring

/-!
# Streams made of blocks, and their readers

A stream is the concatenation of blocks of one length. A `BlockReader` hands out one block and
generates the next on demand.
-/

namespace BlockStream

variable {α : Type*} [Inhabited α]

/-! ## Segments of a stream -/

/-- Element `p` of the stream of the blocks `T`, each of length `size`. -/
def get (size : Nat) (T : Nat → List α) (p : Nat) : α := (T (p / size)).getD (p % size) default

/-- The `n` elements of the stream from position `p` on. -/
def segment (size : Nat) (T : Nat → List α) (p n : Nat) : List α :=
  (List.range' p n).map (get size T)

variable {size : Nat} {T : Nat → List α}

@[simp] theorem length_segment (p n : Nat) : (segment size T p n).length = n := by
  simp [segment]

@[simp] theorem segment_zero (p : Nat) : segment size T p 0 = [] := by
  simp [segment]

theorem segment_add (p m n : Nat) :
    segment size T p (m + n) = segment size T p m ++ segment size T (p + m) n := by
  rw [segment, segment, segment, ← List.map_append, List.range'_append_1]

theorem take_segment {p m n : Nat} (h : n ≤ m) :
    (segment size T p m).take n = segment size T p n := by
  obtain ⟨k, rfl⟩ := Nat.exists_eq_add_of_le h
  rw [segment_add, List.take_left' (length_segment p n)]

theorem segment_of_block {j o n : Nat} (hT : (T j).length = size) (hle : o + n ≤ size) :
    segment size T (j * size + o) n = ((T j).drop o).take n := by
  apply List.ext_getElem
  · simp only [length_segment, List.length_take, List.length_drop, hT]
    omega
  intro i hi _
  rw [length_segment] at hi
  have hlt : o + i < size := by omega
  have hdiv : (j * size + o + i) / size = j :=
    Nat.div_eq_of_lt_le (by omega) (by rw [Nat.succ_mul]; omega)
  have hmod : (j * size + o + i) % size = o + i := by
    rw [Nat.add_assoc, Nat.mul_comm, Nat.mul_add_mod, Nat.mod_eq_of_lt hlt]
  have hget : o + i < (T j).length := hT ▸ hlt
  simp [segment, get, hdiv, hmod, List.getElem?_eq_getElem hget]

theorem segment_blocks (hT : ∀ i, (T i).length = size) (k : Nat) :
    segment size T 0 (k * size) = (List.range k).flatMap T := by
  induction k with
  | zero => simp
  | succ k ih =>
    have hblock := segment_of_block (o := 0) (n := size) (hT k) (by omega)
    rw [Nat.add_zero, List.drop_zero, List.take_of_length_le (hT k).le] at hblock
    rw [Nat.succ_mul, segment_add, ih, Nat.zero_add, hblock, List.range_succ,
      List.flatMap_append, List.flatMap_singleton]

theorem take_blocks (hT : ∀ i, (T i).length = size) {k n : Nat} (h : n ≤ k * size) :
    ((List.range k).flatMap T).take n = segment size T 0 n := by
  rw [← segment_blocks hT, take_segment h]

/-- The first `n` elements of the stream, cut from as many blocks as it takes. -/
def firstElements (size : Nat) (T : Nat → List α) (n : Nat) : List α :=
  ((List.range ((n + size - 1) / size)).flatMap T).take n

theorem firstElements_eq (hsize : 0 < size) (hT : ∀ i, (T i).length = size) (n : Nat) :
    firstElements size T n = segment size T 0 n := by
  apply take_blocks hT
  have hdiv := Nat.div_add_mod (n + size - 1) size
  have hmod := Nat.mod_lt (n + size - 1) hsize
  rw [Nat.mul_comm] at hdiv
  omega

/-! ## Readers -/

/-- A producer of a stream: the block it holds, how many elements of it have been
handed out, and the generation of the next block. -/
structure BlockReader (σ ε α : Type*) where
  size : Nat
  block : σ → List α
  used : σ → Nat
  advance : σ → Nat → σ
  next : σ → Except ε σ

namespace BlockReader

variable {σ ε : Type*}

/-- One request: what is left of the block, then the next blocks. `fuel` bounds the blocks;
`exhausted` is the answer beyond it. -/
def read (r : BlockReader σ ε α) (exhausted : ε) (fuel : Nat) (s : σ) (len : Nat) :
    Except ε (σ × List α) :=
  let n := min (r.size - r.used s) len
  let out := ((r.block s).drop (r.used s)).take n
  if len - n = 0 then .ok (r.advance s n, out)
  else
    match fuel with
    | 0 => .error exhausted
    | fuel + 1 =>
      match r.next (r.advance s n) with
      | .error e => .error e
      | .ok s' =>
        match read r exhausted fuel s' (len - n) with
        | .error e => .error e
        | .ok (s'', rest) => .ok (s'', out ++ rest)

variable {r : BlockReader σ ε α}

/-- `I s p`: the reader `s` stands at position `p`. Handing out moves the position; generating a
block, at the end of the block held and before position `limit`, does not. -/
structure Positioned (r : BlockReader σ ε α) (T : Nat → List α) (limit : Nat)
    (I : σ → Nat → Prop) : Prop where
  size_pos : 0 < r.size
  advance : ∀ s p n, I s p → n ≤ r.size - r.used s →
    I (r.advance s n) (p + n) ∧ (r.used s + n = r.size → r.used (r.advance s n) = r.size)
  out : ∀ s p n, I s p → n ≤ r.size - r.used s →
    ((r.block s).drop (r.used s)).take n = segment r.size T p n
  used_le : ∀ s p, I s p → r.used s ≤ r.size
  next : ∀ s p s', I s p → r.used s = r.size → p < limit → r.next s = .ok s' →
    I s' p ∧ r.used s' = 0

theorem read_spec {I : σ → Nat → Prop} {limit : Nat} (h : Positioned r T limit I)
    {exhausted : ε} {fuel len p : Nat} {s : σ} (hI : I s p) (hlimit : p + len ≤ limit)
    (hfuel : len ≤ fuel + (r.size - r.used s)) :
    (∃ s', r.read exhausted fuel s len = .ok (s', segment r.size T p len) ∧ I s' (p + len)) ∨
    ∃ s₁ p₁ e, I s₁ p₁ ∧ r.used s₁ = r.size ∧ p ≤ p₁ ∧ p₁ < p + len ∧
      r.next s₁ = .error e ∧ r.read exhausted fuel s len = .error e := by
  induction fuel generalizing s p len with
  | zero =>
    left
    have hn : min (r.size - r.used s) len = len := by omega
    have hadv := (h.advance s p len hI (by omega)).1
    have hout := h.out s p len hI (by omega)
    exact ⟨r.advance s len, by simp [read, hn, hout], hadv⟩
  | succ fuel ih =>
    by_cases hlen : len ≤ r.size - r.used s
    · left
      have hn : min (r.size - r.used s) len = len := by omega
      have hadv := (h.advance s p len hI hlen).1
      have hout := h.out s p len hI hlen
      exact ⟨r.advance s len, by simp [read, hn, hout], hadv⟩
    · -- the request goes beyond the block: use it up and generate the next one
      obtain ⟨n, hn⟩ : ∃ n, n = r.size - r.used s := ⟨_, rfl⟩
      have hmin : min (r.size - r.used s) len = n := by omega
      have hmore : len - n ≠ 0 := by omega
      have hused := h.used_le s p hI
      obtain ⟨hadv, hend⟩ := h.advance s p n hI (by omega)
      replace hend := hend (by omega)
      have hout := h.out s p n hI (by omega)
      cases hnext : r.next (r.advance s n) with
      | error e =>
        right
        refine ⟨r.advance s n, p + n, e, hadv, hend, by omega, by omega, hnext, ?_⟩
        rw [read]
        simp only [hmin, if_neg hmore, hnext]
      | ok s' =>
        obtain ⟨hI', hzero⟩ := h.next _ _ _ hadv hend (by omega) hnext
        have hpos := h.size_pos
        have hstep : r.read exhausted (fuel + 1) s len
            = match r.read exhausted fuel s' (len - n) with
              | .error e => .error e
              | .ok (s'', rest) => .ok (s'', segment r.size T p n ++ rest) := by
          rw [read]
          simp only [hmin, if_neg hmore, hnext, hout]
        have hlenEq : n + (len - n) = len := by omega
        have hrest : p + n + (len - n) ≤ limit := by omega
        rcases ih hI' hrest (by omega) with
          ⟨s'', hread, hI''⟩ | ⟨s₁, p₁, e, hI₁, hu, hle, hlt, hfail, hread⟩
        · left
          refine ⟨s'', ?_, ?_⟩
          · rw [hstep, hread, ← hlenEq, segment_add, hlenEq]
          · rwa [Nat.add_assoc, hlenEq] at hI''
        · right
          refine ⟨s₁, p₁, e, hI₁, hu, by omega, by omega, hfail, ?_⟩
          rw [hstep, hread]

end BlockReader

end BlockStream
