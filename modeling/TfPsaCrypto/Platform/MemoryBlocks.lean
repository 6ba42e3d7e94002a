import TfPsaCrypto.Library.DoublyLinked
import TfPsaCrypto.Platform.MemoryBufferAlloc

/-!
# The blocks of the buffer allocator

A heap represents a list of blocks and a free list. What each part of `memory_buffer_alloc.c`
that assigns pointers does to these lists.
-/

namespace TfPsaCrypto.Platform

open DoublyLinked

/-! ## Blocks -/

structure Block where
  addr : Nat
  size : Nat
  alloc : Bool
  deriving DecidableEq, Repr

def blockAt : List Block → Nat → Option Block
  | [], _ => none
  | b :: bs, x => if x = b.addr then some b else blockAt bs x

def addrs (bs : List Block) : List Nat := bs.map Block.addr

def MemoryHeader.own (hdr : MemoryHeader) : Nat × Nat × Nat × Nat :=
  (hdr.magic1, hdr.size, hdr.alloc, hdr.magic2)

def Block.own : Option Block → Nat × Nat × Nat × Nat
  | some b => (Platform.magic1, b.size, b.alloc.toNat, Platform.magic2)
  | none => (0, 0, 0, 0)

/-- The heap is made of the blocks `bs`, with the free list `fl`. -/
structure Represents (heap : Heap) (bs : List Block) (fl : List Nat) : Prop where
  own : ∀ x, (heap.headers x).own = Block.own (blockAt bs x)
  chain : Linked (fun x => (heap.headers x).next) (fun x => (heap.headers x).prev) heap.first
    (addrs bs)
  free : Linked (fun x => (heap.headers x).nextFree) (fun x => (heap.headers x).prevFree)
    heap.firstFree fl

theorem blockAt_eq_none {bs : List Block} {x : Nat} (h : x ∉ addrs bs) : blockAt bs x = none := by
  induction bs with
  | nil => rfl
  | cons b bs ih =>
    rw [addrs, List.map_cons, List.mem_cons, not_or] at h
    rw [blockAt, if_neg h.1]
    exact ih h.2

theorem blockAt_insert {p q : List Block} {b : Block} {x : Nat} (h : b.addr ∉ addrs p) :
    blockAt (p ++ b :: q) x = if x = b.addr then some b else blockAt (p ++ q) x := by
  induction p with
  | nil => rfl
  | cons a p ih =>
    rw [addrs, List.map_cons, List.mem_cons, not_or] at h
    rw [List.cons_append, blockAt, ih h.2, List.cons_append, blockAt]
    by_cases hxa : x = a.addr
    · rw [if_pos hxa, if_pos hxa, if_neg (by rw [hxa]; exact fun heq => h.1 heq.symm)]
    · rw [if_neg hxa, if_neg hxa]

theorem blockAt_insert_pair {p q : List Block} {b c : Block} {x : Nat} (hb : b.addr ∉ addrs p)
    (hc : c.addr ∉ addrs p) (hne : c.addr ≠ b.addr) :
    blockAt (p ++ b :: c :: q) x =
      if x = c.addr then some c else if x = b.addr then some b else blockAt (p ++ q) x := by
  have hpc : c.addr ∉ addrs (p ++ [b]) := by
    simp only [addrs, List.map_append, List.map_cons, List.map_nil, List.mem_append,
      List.mem_singleton, not_or]
    exact ⟨hc, hne⟩
  have hsplit : p ++ b :: c :: q = (p ++ [b]) ++ c :: q := by simp
  rw [hsplit, blockAt_insert hpc, List.append_assoc, List.singleton_append, blockAt_insert hb]

/-! ## Assignments -/

variable {heap : Heap} {p v : Option Nat} {f : MemoryHeader → MemoryHeader} {a x : Nat}

@[simp] theorem headers_write (hdr : MemoryHeader) :
    (heap.write a hdr).headers x = if x = a then hdr else heap.headers x := rfl

@[simp] theorem headers_modify :
    (heap.modify a f).headers x = if x = a then f (heap.headers a) else heap.headers x := rfl

@[simp] theorem headers_modifySome :
    (heap.modifySome p f).headers x =
      if p = some x then f (heap.headers x) else heap.headers x := by
  cases p with
  | none => rfl
  | some p =>
    rw [Heap.modifySome, headers_modify]
    by_cases h : x = p
    · rw [if_pos h, if_pos (by rw [h]), h]
    · rw [if_neg h, if_neg fun heq => h (Option.some.inj heq).symm]

@[simp] theorem headers_setNextFree :
    (heap.setNextFree p v).headers x =
      if p = some x then { heap.headers x with nextFree := v } else heap.headers x := by
  cases p with
  | none => rfl
  | some p => exact @headers_modifySome heap (some p) (fun hdr => { hdr with nextFree := v }) x

@[simp] theorem firstFree_write (hdr : MemoryHeader) :
    (heap.write a hdr).firstFree = heap.firstFree := rfl

@[simp] theorem firstFree_modify : (heap.modify a f).firstFree = heap.firstFree := rfl

@[simp] theorem firstFree_modifySome : (heap.modifySome p f).firstFree = heap.firstFree := by
  cases p <;> rfl

@[simp] theorem firstFree_setNextFree :
    (heap.setNextFree p v).firstFree = if p = none then v else heap.firstFree := by
  cases p <;> rfl

@[simp] theorem first_write (hdr : MemoryHeader) : (heap.write a hdr).first = heap.first := rfl

@[simp] theorem first_modify : (heap.modify a f).first = heap.first := rfl

@[simp] theorem first_modifySome : (heap.modifySome p f).first = heap.first := by
  cases p <;> rfl

@[simp] theorem first_setNextFree : (heap.setNextFree p v).first = heap.first := by
  cases p <;> rfl

/-! ## What the parts do to the blocks -/

theorem notMem_addrs {p q : List Block} {b : Block} (h : (addrs (p ++ b :: q)).Nodup) :
    b.addr ∉ addrs p ++ addrs q := by
  unfold addrs at h ⊢
  rw [List.map_append, List.map_cons] at h
  exact (List.nodup_middle.mp h).notMem

theorem Represents.blockAt_insert {p q : List Block} {c : Block} {fl : List Nat}
    (h : Represents heap (p ++ c :: q) fl) (b : Block) (hb : b.addr = c.addr) :
    blockAt (p ++ b :: q) x = if x = c.addr then some b else blockAt (p ++ q) x := by
  have hnot := notMem_addrs h.chain.nodup
  rw [← hb] at hnot ⊢
  exact Platform.blockAt_insert fun hmem => hnot (List.mem_append_left _ hmem)

theorem Represents.takeBlock {p q : List Block} {c : Block} {f g : List Nat}
    (h : Represents heap (p ++ c :: q) (f ++ c.addr :: g)) :
    Represents (heap.takeBlock c.addr) (p ++ { c with alloc := true } :: q) (f ++ g) := by
  have haddrs : addrs (p ++ { c with alloc := true } :: q) = addrs (p ++ c :: q) := by
    simp [addrs]
  constructor
  · intro x
    have hown := h.own x
    rw [h.blockAt_insert c rfl] at hown
    rw [h.blockAt_insert { c with alloc := true } rfl]
    simp only [Heap.takeBlock, headers_modify, headers_modifySome, headers_setNextFree]
    grind [MemoryHeader.own, Block.own]
  · rw [haddrs]
    have hfirst : (heap.takeBlock c.addr).first = heap.first := by simp [Heap.takeBlock]
    rw [hfirst]
    refine h.chain.congr ?_ ?_
    · intro x
      simp only [Heap.takeBlock, headers_modify, headers_modifySome, headers_setNextFree]
      grind
    · intro x
      simp only [Heap.takeBlock, headers_modify, headers_modifySome, headers_setNextFree]
      grind
  · refine h.free.unlink ?_ ?_ ?_
    · intro x
      simp only [Heap.takeBlock, headers_modify, headers_modifySome, headers_setNextFree]
      grind
    · intro x
      simp only [Heap.takeBlock, headers_modify, headers_modifySome, headers_setNextFree]
      grind
    · simp only [Heap.takeBlock, firstFree_modify, firstFree_modifySome, firstFree_setNextFree,
        headers_modify]
      grind

theorem Represents.splitBlock {p q : List Block} {c : Block} {f g : List Nat} {len : Nat}
    (h : Represents heap (p ++ c :: q) (f ++ c.addr :: g))
    (hnew : c.addr + sizeofMemoryHeader + len ∉ addrs (p ++ c :: q))
    (hfree : c.addr + sizeofMemoryHeader + len ∉ f ++ c.addr :: g) :
    Represents (heap.splitBlock c.addr len)
      (p ++ { c with size := len, alloc := true } ::
        { addr := c.addr + sizeofMemoryHeader + len, size := c.size - len - sizeofMemoryHeader
          alloc := false } :: q)
      (f ++ (c.addr + sizeofMemoryHeader + len) :: g) := by
  obtain ⟨hp, hn, hpn⟩ := h.free.neighbours
  have hchain := h.chain
  have haddrs : addrs (p ++ c :: q) = addrs p ++ c.addr :: addrs q := by simp [addrs]
  rw [haddrs] at hchain hnew
  have hnewNext' : (heap.headers c.addr).next ≠ some (c.addr + sizeofMemoryHeader + len) := by
    intro heq
    have hhead := hchain.next_at
    rw [heq] at hhead
    exact hnew (List.mem_append_right _ (List.mem_cons_of_mem _ (List.mem_of_head? hhead.symm)))
  have hnextFree' : (heap.headers c.addr).nextFree ≠
      some (c.addr + sizeofMemoryHeader + len) := by
    intro heq
    have hhead := h.free.next_at
    rw [heq] at hhead
    exact hfree (List.mem_append_right _ (List.mem_cons_of_mem _ (List.mem_of_head? hhead.symm)))
  have hprevFree' : (heap.headers c.addr).prevFree ≠
      some (c.addr + sizeofMemoryHeader + len) := by
    intro heq
    have hlast := h.free.prev_at
    rw [heq] at hlast
    exact hfree (List.mem_append_left _ (List.mem_of_getLast? hlast.symm))
  have hne : c.addr + sizeofMemoryHeader + len ≠ c.addr := by
    unfold sizeofMemoryHeader
    omega
  generalize hnewAddr : c.addr + sizeofMemoryHeader + len = new at *
  constructor
  · intro x
    have hown := h.own x
    rw [h.blockAt_insert c rfl] at hown
    have hblock : blockAt (p ++ { c with size := len, alloc := true } ::
        { addr := new, size := c.size - len - sizeofMemoryHeader, alloc := false } :: q) x =
          if x = new then
            some { addr := new, size := c.size - len - sizeofMemoryHeader, alloc := false }
          else if x = c.addr then some { c with size := len, alloc := true }
          else blockAt (p ++ q) x := by
      have hp : c.addr ∉ addrs p := fun hmem =>
        notMem_addrs h.chain.nodup (List.mem_append_left _ hmem)
      exact blockAt_insert_pair (b := { c with size := len, alloc := true })
        (c := { addr := new, size := c.size - len - sizeofMemoryHeader, alloc := false }) hp
        (fun hmem => hnew (List.mem_append_left _ hmem)) hne
    rw [hblock]
    have hsize := h.own c.addr
    rw [h.blockAt_insert c rfl, if_pos rfl] at hsize
    simp only [Heap.splitBlock, hnewAddr, headers_modify, headers_modifySome, headers_setNextFree]
    grind [MemoryHeader.own, Block.own]
  · have haddrs' : addrs (p ++ { c with size := len, alloc := true } ::
        { addr := new, size := c.size - len - sizeofMemoryHeader, alloc := false } :: q) =
          addrs p ++ c.addr :: new :: addrs q := by simp [addrs]
    have hfirst : (heap.splitBlock c.addr len).first = heap.first := by simp [Heap.splitBlock]
    rw [haddrs', hfirst]
    refine hchain.insertAfter hnew ?_ ?_
    · intro x
      simp only [Heap.splitBlock, hnewAddr, headers_modify, headers_modifySome, headers_setNextFree]
      grind
    · intro x
      simp only [Heap.splitBlock, hnewAddr, headers_modify, headers_modifySome, headers_setNextFree]
      grind
  · refine h.free.replace (fun hmem => hfree ?_) ?_ ?_ ?_
    · rw [List.mem_append] at hmem ⊢
      exact hmem.imp_right (List.mem_cons_of_mem _)
    · intro x
      simp only [Heap.splitBlock, hnewAddr, headers_modify, headers_modifySome, headers_setNextFree]
      grind
    · intro x
      simp only [Heap.splitBlock, hnewAddr, headers_modify, headers_modifySome, headers_setNextFree]
      grind
    · simp only [Heap.splitBlock, hnewAddr, firstFree_modify, firstFree_modifySome,
        firstFree_setNextFree, headers_modify, headers_modifySome]
      grind

theorem Represents.markFree {p q : List Block} {c : Block} {fl : List Nat}
    (h : Represents heap (p ++ c :: q) fl) :
    Represents (heap.modify c.addr fun hdr => { hdr with alloc := 0 })
      (p ++ { c with alloc := false } :: q) fl := by
  have haddrs : addrs (p ++ { c with alloc := false } :: q) = addrs (p ++ c :: q) := by
    simp [addrs]
  constructor
  · intro x
    have hown := h.own x
    rw [h.blockAt_insert c rfl] at hown
    rw [h.blockAt_insert { c with alloc := false } rfl]
    simp only [headers_modify]
    grind [MemoryHeader.own, Block.own]
  · rw [haddrs]
    refine h.chain.congr ?_ ?_
    · intro x
      simp only [headers_modify]
      grind
    · intro x
      simp only [headers_modify]
      grind
  · refine h.free.congr ?_ ?_
    · intro x
      simp only [headers_modify]
      grind
    · intro x
      simp only [headers_modify]
      grind

theorem Represents.blockAt_pair {p q : List Block} {c b : Block} {fl : List Nat}
    (h : Represents heap (p ++ c :: b :: q) fl) :
    c.addr ≠ b.addr ∧ blockAt (p ++ q) b.addr = none ∧
      (∀ x, blockAt (p ++ c :: b :: q) x =
        if x = b.addr then some b else if x = c.addr then some c else blockAt (p ++ q) x) ∧
      ∀ n x, blockAt (p ++ { c with size := n } :: q) x =
        if x = c.addr then some { c with size := n } else blockAt (p ++ q) x := by
  have hc := notMem_addrs h.chain.nodup
  have hp : c.addr ∉ addrs p := fun hmem => hc (List.mem_append_left _ hmem)
  have hsplit : p ++ c :: b :: q = (p ++ [c]) ++ b :: q := by simp
  have hnodup := h.chain.nodup
  rw [hsplit] at hnodup
  have hb := notMem_addrs hnodup
  have hpc : b.addr ∉ addrs (p ++ [c]) := fun hmem => hb (List.mem_append_left _ hmem)
  refine ⟨?_, ?_, ?_, ?_⟩
  · intro heq
    exact hpc (by simp [addrs, heq])
  · refine blockAt_eq_none fun hmem => hb ?_
    simp only [addrs, List.map_append, List.mem_append] at hmem ⊢
    exact hmem.imp_left .inl
  · intro x
    refine blockAt_insert_pair hp (fun hmem => hpc ?_) fun heq => hpc ?_
    · simp only [addrs, List.map_append, List.mem_append] at hmem ⊢
      exact .inl hmem
    · simp [addrs, heq]
  · intro n x
    exact Platform.blockAt_insert (b := { c with size := n }) hp

theorem Represents.mergeBefore {p q : List Block} {c b : Block} {fl : List Nat}
    (h : Represents heap (p ++ c :: b :: q) fl) (hfree : b.addr ∉ fl) :
    Represents (heap.mergeBefore b.addr c.addr)
      (p ++ { c with size := c.size + (sizeofMemoryHeader + b.size) } :: q) fl := by
  have hchain := h.chain
  have haddrs : addrs (p ++ c :: b :: q) = (addrs p ++ [c.addr]) ++ b.addr :: addrs q := by
    simp [addrs]
  rw [haddrs] at hchain
  have hprev := hchain.prev_at
  rw [List.getLast?_concat] at hprev
  obtain ⟨hnextFree, hprevFree⟩ := h.free.of_notMem hfree
  obtain ⟨hne, hnone, hblock, hblock'⟩ := h.blockAt_pair
  constructor
  · intro x
    have hown := h.own x
    have hc := h.own c.addr
    have hbown := h.own b.addr
    rw [hblock] at hc hbown
    rw [hblock']
    simp only [Heap.mergeBefore, headers_modify, headers_modifySome, headers_write]
    grind [MemoryHeader.own, Block.own, MemoryHeader.zero]
  · have haddrs' : addrs (p ++ { c with size := c.size + (sizeofMemoryHeader + b.size) } :: q) =
        (addrs p ++ [c.addr]) ++ addrs q := by simp [addrs]
    have hfirst : (heap.mergeBefore b.addr c.addr).first = heap.first := by
      simp [Heap.mergeBefore]
    rw [haddrs', hfirst]
    refine hchain.unlink ?_ ?_ ?_
    · intro x
      simp only [Heap.mergeBefore, headers_modify, headers_modifySome, headers_write]
      grind [MemoryHeader.zero]
    · intro x
      simp only [Heap.mergeBefore, headers_modify, headers_modifySome, headers_write]
      grind [MemoryHeader.zero]
    · rw [if_neg (by rw [hprev]; exact Option.some_ne_none _)]
  · have hfirst : (heap.mergeBefore b.addr c.addr).firstFree = heap.firstFree := by
      simp [Heap.mergeBefore]
    rw [hfirst]
    refine h.free.congr ?_ ?_
    · intro x
      simp only [Heap.mergeBefore, headers_modify, headers_modifySome, headers_write]
      grind [MemoryHeader.zero]
    · intro x
      simp only [Heap.mergeBefore, headers_modify, headers_modifySome, headers_write]
      grind [MemoryHeader.zero]

theorem Represents.prepend {bs : List Block} {fl : List Nat} (h : Represents heap bs fl)
    (ha : a ∉ fl) : Represents (heap.prepend a) bs (a :: fl) := by
  obtain ⟨hnextFree, hprevFree⟩ := h.free.of_notMem ha
  have hfirst : heap.firstFree ≠ some a := by
    rw [h.free.first]
    exact fun heq => ha (List.mem_of_head? heq)
  constructor
  · intro x
    have hown := h.own x
    simp only [Heap.prepend, headers_modify, headers_modifySome]
    grind [MemoryHeader.own]
  · have hfirst : (heap.prepend a).first = heap.first := by simp [Heap.prepend]
    rw [hfirst]
    refine h.chain.congr ?_ ?_
    · intro x
      simp only [Heap.prepend, headers_modify, headers_modifySome]
      grind
    · intro x
      simp only [Heap.prepend, headers_modify, headers_modifySome]
      grind
  · refine h.free.push ha ?_ ?_
    · intro x
      simp only [Heap.prepend, headers_modify, headers_modifySome]
      grind
    · intro x
      simp only [Heap.prepend, headers_modify, headers_modifySome, firstFree_modify]
      grind

theorem headers_unlinkFree
    (hp : (heap.headers a).prevFree ≠ some a) :
    (heap.unlinkFree a).headers x =
      if (heap.headers a).nextFree = some x then
        { (if (heap.headers a).prevFree = some x then
            { heap.headers x with nextFree := (heap.headers a).nextFree }
          else heap.headers x) with prevFree := (heap.headers a).prevFree }
      else if (heap.headers a).prevFree = some x then
        { heap.headers x with nextFree := (heap.headers a).nextFree }
      else heap.headers x := by
  unfold Heap.unlinkFree
  split
  · simp only [headers_modifySome, headers_setNextFree, if_neg hp]
  · grind

theorem firstFree_unlinkFree :
    (heap.unlinkFree a).firstFree =
      if (heap.headers a).prevFree ≠ none ∨ (heap.headers a).nextFree ≠ none then
        if (heap.headers a).prevFree = none then (heap.headers a).nextFree else heap.firstFree
      else heap.firstFree := by
  unfold Heap.unlinkFree
  split
  · simp only [firstFree_modifySome, firstFree_setNextFree]
  · rfl

@[simp] theorem first_unlinkFree : (heap.unlinkFree a).first = heap.first := by
  unfold Heap.unlinkFree
  split <;> simp

theorem headers_replaceFree {b : Nat} (hp : (heap.headers b).prevFree ≠ some a)
    (hn : (heap.headers b).nextFree ≠ some a) :
    (heap.replaceFree a b).headers x =
      if x = a then
        { heap.headers a with
          prevFree := (heap.headers b).prevFree, nextFree := (heap.headers b).nextFree }
      else if (heap.headers b).nextFree = some x then
        { (if (heap.headers b).prevFree = some x then { heap.headers x with nextFree := some a }
          else heap.headers x) with prevFree := some a }
      else if (heap.headers b).prevFree = some x then { heap.headers x with nextFree := some a }
      else heap.headers x := by
  simp only [Heap.replaceFree, headers_modify, headers_setNextFree, headers_modifySome, if_true,
    if_neg hp]
  by_cases hx : x = a
  · rw [hx, if_pos rfl, if_neg hp, if_neg hn]
    exact (if_pos rfl).symm
  · simp only [if_neg hx]

theorem firstFree_replaceFree {b : Nat} :
    (heap.replaceFree a b).firstFree =
      if (heap.headers b).prevFree = none then some a else heap.firstFree := by
  simp [Heap.replaceFree]

@[simp] theorem first_replaceFree {b : Nat} : (heap.replaceFree a b).first = heap.first := by
  simp [Heap.replaceFree]

theorem Represents.mergeAfter {p q : List Block} {c d : Block} {f g f' g' fl : List Nat}
    (h : Represents heap (p ++ c :: d :: q) fl) (hd : fl = f ++ d.addr :: g)
    (hc : c.addr ∉ fl ∧ f' = f ∧ g' = g ∨
      ∃ s t, fl = s ++ c.addr :: t ∧ s ++ t = f' ++ d.addr :: g') :
    Represents (heap.mergeAfter c.addr d.addr)
      (p ++ { c with size := c.size + (sizeofMemoryHeader + d.size) } :: q)
      (f' ++ c.addr :: g') := by
  have hchain := h.chain
  have haddrs : addrs (p ++ c :: d :: q) = (addrs p ++ [c.addr]) ++ d.addr :: addrs q := by
    simp [addrs]
  rw [haddrs] at hchain
  have hprev := hchain.prev_at
  rw [List.getLast?_concat] at hprev
  obtain ⟨hne, hnone, hblock, hblock'⟩ := h.blockAt_pair
  -- The free list after the block has left it, and its end.
  obtain ⟨N, P, F, hlinked, hcN, hN, hP, hF⟩ : ∃ (N P : Nat → Option Nat) (F : Option Nat),
      Linked N P F (f' ++ d.addr :: g') ∧ c.addr ∉ f' ++ d.addr :: g' ∧
      (∀ x, N x = if x = c.addr then none
        else if (heap.headers c.addr).prevFree = some x then (heap.headers c.addr).nextFree
        else (heap.headers x).nextFree) ∧
      (∀ x, P x = if x = c.addr then none
        else if (heap.headers c.addr).nextFree = some x then (heap.headers c.addr).prevFree
        else (heap.headers x).prevFree) ∧
      (F = if (heap.headers c.addr).prevFree ≠ none ∨ (heap.headers c.addr).nextFree ≠ none then
          if (heap.headers c.addr).prevFree = none then (heap.headers c.addr).nextFree
          else heap.firstFree
        else heap.firstFree) := by
    rcases hc with ⟨hc, rfl, rfl⟩ | ⟨s, t, rfl, hst⟩
    · obtain ⟨hnf, hpf⟩ := h.free.of_notMem hc
      refine ⟨_, _, _, hd ▸ h.free, hd ▸ hc, ?_, ?_, ?_⟩
      · intro x
        grind
      · intro x
        grind
      · grind
    · refine ⟨_, _, _, hst ▸ h.free.unlink (fun _ => rfl) (fun _ => rfl) rfl, ?_, fun _ => rfl,
        fun _ => rfl, ?_⟩
      · exact hst ▸ (List.nodup_middle.mp h.free.nodup).notMem
      · have hnf := h.free.next_at
        have hpf := h.free.prev_at
        have hne' : s ≠ [] ∨ t ≠ [] := by
          by_contra hnil
          rw [not_or, not_not, not_not] at hnil
          rw [hnil.1, hnil.2] at hst
          cases f' <;> cases hst
        have hsome : (heap.headers c.addr).prevFree ≠ none ∨
            (heap.headers c.addr).nextFree ≠ none := by
          rw [hnf, hpf]
          refine hne'.imp ?_ ?_
          · rw [ne_eq, ne_eq, List.getLast?_eq_none_iff]
            exact id
          · rw [ne_eq, ne_eq, List.head?_eq_none_iff]
            exact id
        rw [if_pos hsome]
  have hNc : N d.addr ≠ some c.addr := by
    rw [hlinked.next_at]
    exact fun heq => hcN (List.mem_append_right _ (List.mem_cons_of_mem _ (List.mem_of_head? heq)))
  have hPc : P d.addr ≠ some c.addr := by
    rw [hlinked.prev_at]
    exact fun heq => hcN (List.mem_append_left _ (List.mem_of_getLast? heq))
  have hcN' : c.addr ∉ f' ++ g' := by
    refine fun hmem => hcN ?_
    rw [List.mem_append] at hmem ⊢
    exact hmem.imp_right (List.mem_cons_of_mem _)
  obtain ⟨hcP, hcNx, hcPN⟩ : (heap.headers c.addr).prevFree ≠ some c.addr ∧
      (heap.headers c.addr).nextFree ≠ some c.addr ∧
      ∀ x, ¬ ((heap.headers c.addr).prevFree = some x ∧
        (heap.headers c.addr).nextFree = some x) := by
    rcases hc with ⟨hc, -, -⟩ | ⟨s, t, rfl, -⟩
    · obtain ⟨hnf, hpf⟩ := h.free.of_notMem hc
      grind
    · exact h.free.neighbours
  let heap₁ := heap.modify c.addr fun h =>
    { h with
      size := h.size + (sizeofMemoryHeader + (heap.headers d.addr).size)
      next := (heap.headers d.addr).next }
  have hheaders : ∀ x, (heap₁.unlinkFree c.addr).headers x =
      if x = c.addr then heap₁.headers c.addr
      else { heap.headers x with nextFree := N x, prevFree := P x } := by
    intro x
    have hx₁ : heap₁.headers x = if x = c.addr then heap₁.headers c.addr else heap.headers x := by
      by_cases hx : x = c.addr
      · rw [if_pos hx, hx]
      · rw [if_neg hx]
        exact if_neg hx
    have hcf : (heap₁.headers c.addr).prevFree = (heap.headers c.addr).prevFree ∧
        (heap₁.headers c.addr).nextFree = (heap.headers c.addr).nextFree := by
      simp [heap₁]
    rw [headers_unlinkFree (by rw [hcf.1]; exact hcP), hx₁, hcf.1, hcf.2, hN, hP]
    by_cases hx : x = c.addr
    · rw [hx, if_neg hcNx, if_neg hcP, if_pos rfl]
      exact (if_pos rfl).symm
    · simp only [if_neg hx]
      split_ifs <;> rfl
  have hfirst : (heap₁.unlinkFree c.addr).firstFree = F := by
    rw [firstFree_unlinkFree, hF]
    simp [heap₁]
  have hheap₁ : heap₁.headers c.addr =
      { heap.headers c.addr with
        size := (heap.headers c.addr).size + (sizeofMemoryHeader + (heap.headers d.addr).size)
        next := (heap.headers d.addr).next } := by
    simp [heap₁]
  have hread : (heap₁.unlinkFree c.addr).headers d.addr =
      { heap.headers d.addr with nextFree := N d.addr, prevFree := P d.addr } := by
    rw [hheaders, if_neg hne.symm]
  have hmerged : ∀ x, ((heap₁.unlinkFree c.addr).replaceFree c.addr d.addr).headers x =
      if x = c.addr then { heap₁.headers c.addr with prevFree := P d.addr, nextFree := N d.addr }
      else
        { heap.headers x with
          nextFree := if P d.addr = some x then some c.addr else N x
          prevFree := if N d.addr = some x then some c.addr else P x } := by
    intro x
    rw [headers_replaceFree (by rw [hread]; exact hPc) (by rw [hread]; exact hNc), hread,
      hheaders, hheaders, if_pos rfl]
    by_cases hx : x = c.addr
    · rw [if_pos hx, if_pos hx]
    · simp only [if_neg hx]
      split_ifs <;> rfl
  have hmergedFirst : ((heap₁.unlinkFree c.addr).replaceFree c.addr d.addr).firstFree =
      if P d.addr = none then some c.addr else F := by
    rw [firstFree_replaceFree, hread, hfirst]
  have hfirst₁ : heap₁.first = heap.first := rfl
  have hmerge : heap.mergeAfter c.addr d.addr =
      (((heap₁.unlinkFree c.addr).replaceFree c.addr d.addr).modifySome
        (((heap₁.unlinkFree c.addr).replaceFree c.addr d.addr).headers c.addr).next fun h =>
          { h with prev := some c.addr }).write d.addr .zero := rfl
  rw [hmerge]
  constructor
  · intro x
    have hown := h.own x
    have hcown := h.own c.addr
    have hdown := h.own d.addr
    rw [hblock] at hown hcown hdown
    rw [hblock']
    simp only [headers_modifySome, headers_write, hmerged, hheap₁]
    grind [MemoryHeader.own, Block.own, MemoryHeader.zero]
  · have haddrs' : addrs (p ++ { c with size := c.size + (sizeofMemoryHeader + d.size) } :: q) =
        (addrs p ++ [c.addr]) ++ addrs q := by simp [addrs]
    simp only [first_write, first_modifySome, first_replaceFree, first_unlinkFree, hfirst₁]
    rw [haddrs']
    refine hchain.unlink ?_ ?_ ?_
    · intro x
      simp only [headers_modifySome, headers_write, hmerged, hheap₁]
      grind [MemoryHeader.zero]
    · intro x
      simp only [headers_modifySome, headers_write, hmerged, hheap₁]
      grind [MemoryHeader.zero]
    · rw [if_neg (by rw [hprev]; exact Option.some_ne_none _)]
  · simp only [firstFree_write, firstFree_modifySome, hmergedFirst]
    refine hlinked.replace hcN' ?_ ?_ rfl
    · intro x
      simp only [headers_modifySome, headers_write, hmerged, hheap₁]
      grind [MemoryHeader.zero]
    · intro x
      simp only [headers_modifySome, headers_write, hmerged, hheap₁]
      grind [MemoryHeader.zero]

end TfPsaCrypto.Platform
