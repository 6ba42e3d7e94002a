import Mathlib.Data.List.Chain
import Mathlib.Data.List.Perm.Subperm
import TfPsaCrypto.Platform.MemoryBlocks

/-!
# The heap invariant of the buffer allocator

The blocks tile the buffer, no two free blocks are neighbours, and the free list is the list of
the free blocks.
-/

namespace TfPsaCrypto.Platform

open DoublyLinked

variable {heap heap₀ : Heap} {p v : Option Nat} {f : MemoryHeader → MemoryHeader} {a x : Nat}
  {S : List Nat}

/-! ## Tiles -/

variable {q bs : List Block} {s e : Nat} {b c : Block}

/-- The blocks follow one another from `a` to `e`, each with its header. -/
def Tiles : Nat → List Block → Nat → Prop
  | a, [], e => a = e
  | a, b :: bs, e => b.addr = a ∧ Tiles (a + sizeofMemoryHeader + b.size) bs e

theorem tiles_append {p : List Block} : Tiles s (p ++ q) e ↔ ∃ m, Tiles s p m ∧ Tiles m q e := by
  induction p generalizing s with
  | nil =>
    constructor
    · intro h
      exact ⟨s, rfl, h⟩
    · rintro ⟨m, rfl, h⟩
      exact h
  | cons b p ih =>
    rw [List.cons_append, Tiles, ih]
    constructor
    · rintro ⟨hb, m, hp, hq⟩
      exact ⟨m, ⟨hb, hp⟩, hq⟩
    · rintro ⟨m, ⟨hb, hp⟩, hq⟩
      exact ⟨hb, m, hp, hq⟩

theorem Tiles.le (h : Tiles s bs e) : s + sizeofMemoryHeader * bs.length ≤ e := by
  induction bs generalizing s with
  | nil =>
    have heq : s = e := h
    exact heq.le
  | cons b bs ih =>
    have hle := ih h.2
    rw [List.length_cons, Nat.mul_succ]
    omega

theorem Tiles.bounds (h : Tiles s bs e) (hb : b ∈ bs) :
    s ≤ b.addr ∧ b.addr + sizeofMemoryHeader + b.size ≤ e := by
  induction bs generalizing s with
  | nil => cases hb
  | cons c bs ih =>
    obtain ⟨rfl, htail⟩ := h
    rcases List.mem_cons.mp hb with rfl | hmem
    · exact ⟨le_rfl, le_trans (Nat.le_add_right _ _) htail.le⟩
    · obtain ⟨hlow, hhigh⟩ := ih htail hmem
      exact ⟨by omega, hhigh⟩

theorem Tiles.apart {p : List Block} (h : Tiles s (p ++ b :: q) e) (hc : c ∈ p ++ q) :
    c.addr + sizeofMemoryHeader + c.size ≤ b.addr ∨
      b.addr + sizeofMemoryHeader + b.size ≤ c.addr := by
  obtain ⟨m, hp, rfl, hq⟩ := tiles_append.mp h
  rcases List.mem_append.mp hc with hmem | hmem
  · exact .inl (hp.bounds hmem).2
  · exact .inr (hq.bounds hmem).1

theorem mem_addrs : a ∈ addrs bs ↔ ∃ b ∈ bs, b.addr = a := List.mem_map

theorem blockAt_of_mem (h : (addrs bs).Nodup) (hb : b ∈ bs) : blockAt bs b.addr = some b := by
  obtain ⟨p, q, rfl⟩ := List.append_of_mem hb
  rw [Platform.blockAt_insert fun hmem => notMem_addrs h (List.mem_append_left _ hmem)]
  exact if_pos rfl

theorem exists_of_blockAt (h : blockAt bs a = some b) : b ∈ bs ∧ b.addr = a := by
  induction bs with
  | nil => cases h
  | cons c bs ih =>
    rw [blockAt] at h
    split at h
    · next ha =>
      cases h
      exact ⟨List.mem_cons_self, ha.symm⟩
    · exact (ih h).imp_left (List.mem_cons_of_mem _)

def NoFreePair (bs : List Block) : Prop := bs.IsChain fun b c => b.alloc = true ∨ c.alloc = true

structure HeapInv (heap : Heap) (bs : List Block) (fl : List Nat) : Prop
    extends Represents heap bs fl where
  tiles : ∃ buf, heap.buf = some buf ∧ Tiles buf bs (buf + heap.len) ∧ buf + heap.len ≤ 2 ^ 64
  nonempty : bs ≠ []
  freeList : ∀ x, x ∈ fl ↔ ∃ b, blockAt bs x = some b ∧ b.alloc = false
  apart : NoFreePair bs

/-! ## Verification succeeds -/

variable {fl : List Nat}

theorem Represents.verifyHeader_eq (h : Represents heap bs fl) (hb : b ∈ bs) :
    verifyHeader (heap.headers b.addr) = 0 := by
  have hown := h.own b.addr
  rw [blockAt_of_mem h.chain.nodup hb, MemoryHeader.own, Block.own] at hown
  obtain ⟨h1, -, h3, h4⟩ := by simpa only [Prod.mk.injEq] using hown
  have halloc : ¬ (heap.headers b.addr).alloc > 1 := by
    rw [h3]
    exact Nat.not_lt.mpr (Bool.toNat_le _)
  have hchain := h.chain
  obtain ⟨s, t, hst⟩ := List.append_of_mem (mem_addrs.mpr ⟨b, hb, rfl⟩)
  rw [hst] at hchain
  obtain ⟨-, -, hpn⟩ := hchain.neighbours
  have hfree : ∀ y, ¬ ((heap.headers b.addr).prevFree = some y ∧
      (heap.headers b.addr).nextFree = some y) := by
    by_cases hmem : b.addr ∈ fl
    · have hlinked := h.free
      obtain ⟨s, t, hst⟩ := List.append_of_mem hmem
      rw [hst] at hlinked
      exact hlinked.neighbours.2.2
    · have hnone := (h.free.of_notMem hmem).1
      intro y hy
      rw [hnone] at hy
      cases hy.2
  have hne : ∀ {o o' : Option Nat}, (∀ y, ¬ (o = some y ∧ o' = some y)) →
      ¬ (o ≠ none ∧ o = o') := by
    rintro o o' ho ⟨hsome, rfl⟩
    obtain ⟨y, hy⟩ := Option.ne_none_iff_exists'.mp hsome
    exact ho y ⟨hy, hy⟩
  unfold verifyHeader
  rw [if_neg (not_not.mpr h1), if_neg (not_not.mpr h4), if_neg halloc, if_neg (hne hpn),
    if_neg (hne hfree)]

theorem Represents.verifyChainLoop_eq (h : Represents heap bs fl) {s t : List Nat} {prv fuel : Nat}
    (hst : addrs bs = s ++ prv :: t) (hfuel : t.length ≤ fuel) :
    verifyChainLoop heap.headers fuel prv t.head? = some 0 := by
  induction t generalizing s prv fuel with
  | nil => cases fuel <;> rfl
  | cons cur t ih =>
    obtain ⟨fuel, rfl⟩ := Nat.exists_eq_succ_of_ne_zero
      (Nat.ne_of_gt (lt_of_lt_of_le (Nat.succ_pos t.length) hfuel))
    have hst' : addrs bs = (s ++ [prv]) ++ cur :: t := by rw [hst]; simp
    have hchain := h.chain
    rw [hst'] at hchain
    have hcur : cur ∈ addrs bs := by
      rw [hst']
      exact List.mem_append_right _ List.mem_cons_self
    obtain ⟨b, hb, rfl⟩ := mem_addrs.mp hcur
    have hprev := hchain.prev_at
    rw [List.getLast?_concat] at hprev
    rw [List.head?_cons, verifyChainLoop, if_neg (not_not.mpr (h.verifyHeader_eq hb)),
      if_neg (not_not.mpr hprev), hchain.next_at]
    exact ih hst' (Nat.le_of_succ_le_succ hfuel)

theorem HeapInv.length_le (h : HeapInv heap bs fl) :
    bs.length ≤ heap.len ∧ fl.length ≤ heap.len := by
  obtain ⟨buf, -, htiles, -⟩ := h.tiles
  have hle := htiles.le
  unfold sizeofMemoryHeader at hle
  have hbs : bs.length ≤ heap.len := by omega
  have hsubset : fl ⊆ addrs bs := by
    intro x hx
    obtain ⟨b, hb, -⟩ := (h.freeList x).mp hx
    exact mem_addrs.mpr ⟨b, exists_of_blockAt hb⟩
  have hfl := (List.subperm_of_subset h.free.nodup hsubset).length_le
  rw [addrs, List.length_map] at hfl
  exact ⟨hbs, hfl.trans hbs⟩

theorem HeapInv.verifyChain_eq (h : HeapInv heap bs fl) : verifyChain heap = some 0 := by
  obtain ⟨b, bs', rfl⟩ := List.exists_cons_of_ne_nil h.nonempty
  have hfirst : heap.first = some b.addr := h.chain.first
  have hchain := h.chain
  have haddrs : addrs (b :: bs') = [] ++ b.addr :: addrs bs' := rfl
  rw [haddrs] at hchain
  have hlen := h.length_le.1
  rw [List.length_cons] at hlen
  have hprev : (heap.headers b.addr).prev = none := hchain.prev_at
  unfold verifyChain
  rw [hfirst]
  dsimp only
  rw [if_neg (not_not.mpr (h.verifyHeader_eq List.mem_cons_self)),
    if_neg (not_not.mpr hprev), hchain.next_at]
  refine h.verifyChainLoop_eq haddrs ?_
  rw [addrs, List.length_map]
  exact Nat.le_of_succ_le hlen

theorem HeapInv.verified_eq (h : HeapInv heap bs fl) (flag : Nat) :
    heap.verified flag = some () := by
  unfold Heap.verified
  rw [if_neg]
  rintro ⟨-, hne⟩
  exact hne h.verifyChain_eq

/-! ## The search for a block -/

theorem Represents.findFit_eq {s t : List Nat} {len fuel : Nat} (h : Represents heap bs fl)
    (hst : fl = s ++ t) (hfuel : t.length ≤ fuel) :
    findFit heap.headers len fuel t.head? =
      some (t.find? fun x => (heap.headers x).size ≥ len) := by
  induction t generalizing s fuel with
  | nil => cases fuel <;> rfl
  | cons cur t ih =>
    obtain ⟨fuel, rfl⟩ := Nat.exists_eq_succ_of_ne_zero
      (Nat.ne_of_gt (lt_of_lt_of_le (Nat.succ_pos t.length) hfuel))
    have hlinked := h.free
    rw [hst] at hlinked
    rw [List.head?_cons, findFit, List.find?_cons, hlinked.next_at]
    by_cases hsize : (heap.headers cur).size ≥ len
    · rw [if_pos hsize, decide_eq_true hsize]
    · rw [if_neg hsize, decide_eq_false hsize]
      exact ih (s := s ++ [cur]) (by rw [hst]; simp) (Nat.le_of_succ_le_succ hfuel)

theorem noFreePair_middle {p : List Block} :
    NoFreePair (p ++ c :: q) ↔
      NoFreePair p ∧ NoFreePair q ∧ (∀ x ∈ p.getLast?, x.alloc = true ∨ c.alloc = true) ∧
        ∀ y ∈ q.head?, c.alloc = true ∨ y.alloc = true := by
  unfold NoFreePair
  rw [List.isChain_append, List.isChain_cons]
  constructor
  · rintro ⟨hp, ⟨hq, hqs⟩, hpc⟩
    exact ⟨hp, hqs, fun x hx => hpc x hx c rfl, hq⟩
  · rintro ⟨hp, hq, hpc, hcq⟩
    refine ⟨hp, ⟨hcq, hq⟩, fun x hx y hy => ?_⟩
    cases hy
    exact hpc x hx

/-! ## What the parts do to the memory -/

def MemoryHeader.PointsInto (S : List Nat) (hdr : MemoryHeader) : Prop :=
  ∀ y, hdr.prev = some y ∨ hdr.next = some y ∨ hdr.prevFree = some y ∨ hdr.nextFree = some y → y ∈ S

/-- All pointers of the heap are in `S`, and only the headers at `S` differ from the memory of
`heap₀`. -/
structure Keeps (S : List Nat) (heap₀ heap : Heap) : Prop where
  headers : ∀ x, (heap.headers x).PointsInto S
  firstFree : ∀ y, heap.firstFree = some y → y ∈ S
  memory : ∀ x, (∀ y ∈ S, ¬ (y ≤ x ∧ x < y + sizeofMemoryHeader)) → heap.memory x = heap₀.memory x
  buf : heap.buf = heap₀.buf ∧ heap.len = heap₀.len ∧ heap.verify = heap₀.verify

theorem Keeps.mono {S' : List Nat} (h : Keeps S heap₀ heap) (hS : S ⊆ S') :
    Keeps S' heap₀ heap :=
  ⟨fun x y hy => hS (h.headers x y hy), fun y hy => hS (h.firstFree y hy),
    fun x hx => h.memory x fun y hy => hx y (hS hy), h.buf⟩

theorem Keeps.write (h : Keeps S heap₀ heap) (ha : a ∈ S) {hdr : MemoryHeader}
    (hhdr : hdr.PointsInto S) : Keeps S heap₀ (heap.write a hdr) := by
  refine ⟨fun x => ?_, h.firstFree, fun x hx => ?_, h.buf⟩
  · rw [headers_write]
    split
    · exact hhdr
    · exact h.headers x
  · exact (if_neg (hx a ha)).trans (h.memory x hx)

theorem Keeps.modify (h : Keeps S heap₀ heap) (ha : a ∈ S)
    (hf : ∀ hdr : MemoryHeader, hdr.PointsInto S → (f hdr).PointsInto S) :
    Keeps S heap₀ (heap.modify a f) :=
  h.write ha (hf _ (h.headers a))

theorem Keeps.modifySome (h : Keeps S heap₀ heap) (hp : ∀ y, p = some y → y ∈ S)
    (hf : ∀ hdr : MemoryHeader, hdr.PointsInto S → (f hdr).PointsInto S) :
    Keeps S heap₀ (heap.modifySome p f) := by
  cases p with
  | none => exact h
  | some p => exact h.modify (hp p rfl) hf

theorem Keeps.setNextFree (h : Keeps S heap₀ heap) (hp : ∀ y, p = some y → y ∈ S)
    (hv : ∀ y, v = some y → y ∈ S) : Keeps S heap₀ (heap.setNextFree p v) := by
  cases p with
  | none => exact ⟨h.headers, hv, h.memory, h.buf⟩
  | some p =>
    refine h.modify (f := fun hdr => { hdr with nextFree := v }) (hp p rfl) ?_
    intro hdr hhdr y hy
    rcases hy with hy | hy | hy | hy
    · exact hhdr y (.inl hy)
    · exact hhdr y (.inr (.inl hy))
    · exact hhdr y (.inr (.inr (.inl hy)))
    · exact hv y hy

theorem Keeps.pointers (h : Keeps S heap₀ heap) (x : Nat) :
    (∀ y, (heap.headers x).prev = some y → y ∈ S) ∧ (∀ y, (heap.headers x).next = some y → y ∈ S) ∧
      (∀ y, (heap.headers x).prevFree = some y → y ∈ S) ∧
      ∀ y, (heap.headers x).nextFree = some y → y ∈ S :=
  ⟨fun y hy => h.headers x y (.inl hy), fun y hy => h.headers x y (.inr (.inl hy)),
    fun y hy => h.headers x y (.inr (.inr (.inl hy))),
    fun y hy => h.headers x y (.inr (.inr (.inr hy)))⟩

theorem pointsInto_zero : MemoryHeader.zero.PointsInto S := by
  intro y hy
  rcases hy with hy | hy | hy | hy <;> cases hy

section

variable {hdr : MemoryHeader}

theorem MemoryHeader.PointsInto.withPrev (h : hdr.PointsInto S) (hv : ∀ y, v = some y → y ∈ S) :
    ({ hdr with prev := v } : MemoryHeader).PointsInto S := by
  rintro y (hy | hy | hy | hy)
  · exact hv y hy
  · exact h y (.inr (.inl hy))
  · exact h y (.inr (.inr (.inl hy)))
  · exact h y (.inr (.inr (.inr hy)))

theorem MemoryHeader.PointsInto.withNext (h : hdr.PointsInto S) (hv : ∀ y, v = some y → y ∈ S) :
    ({ hdr with next := v } : MemoryHeader).PointsInto S := by
  rintro y (hy | hy | hy | hy)
  · exact h y (.inl hy)
  · exact hv y hy
  · exact h y (.inr (.inr (.inl hy)))
  · exact h y (.inr (.inr (.inr hy)))

theorem MemoryHeader.PointsInto.withPrevFree (h : hdr.PointsInto S)
    (hv : ∀ y, v = some y → y ∈ S) : ({ hdr with prevFree := v } : MemoryHeader).PointsInto S := by
  rintro y (hy | hy | hy | hy)
  · exact h y (.inl hy)
  · exact h y (.inr (.inl hy))
  · exact hv y hy
  · exact h y (.inr (.inr (.inr hy)))

theorem MemoryHeader.PointsInto.withNextFree (h : hdr.PointsInto S)
    (hv : ∀ y, v = some y → y ∈ S) : ({ hdr with nextFree := v } : MemoryHeader).PointsInto S := by
  rintro y (hy | hy | hy | hy)
  · exact h y (.inl hy)
  · exact h y (.inr (.inl hy))
  · exact h y (.inr (.inr (.inl hy)))
  · exact hv y hy

theorem MemoryHeader.PointsInto.withFree {w : Option Nat} (h : hdr.PointsInto S)
    (hv : ∀ y, v = some y → y ∈ S) (hw : ∀ y, w = some y → y ∈ S) :
    ({ hdr with prevFree := v, nextFree := w } : MemoryHeader).PointsInto S :=
  (h.withPrevFree hv).withNextFree hw

end

theorem some_mem {b : Nat} (hb : b ∈ S) : ∀ y, some b = some y → y ∈ S := by
  rintro y ⟨⟩
  exact hb

theorem none_mem : ∀ y, (none : Option Nat) = some y → y ∈ S := by
  rintro y ⟨⟩

theorem Keeps.takeBlock (h : Keeps S heap₀ heap) (ha : a ∈ S) :
    Keeps S heap₀ (heap.takeBlock a) := by
  have h₁ := h.modify (f := fun hdr => { hdr with alloc := 1 }) ha fun _ hhdr => hhdr
  have h₂ := h₁.setNextFree (h₁.pointers a).2.2.1 (h₁.pointers a).2.2.2
  have h₃ := h₂.modifySome (h₂.pointers a).2.2.2 fun _ hhdr =>
    hhdr.withPrevFree (h₂.pointers a).2.2.1
  exact h₃.modify ha fun _ hhdr => hhdr.withFree none_mem none_mem

theorem Keeps.splitBlock {len : Nat} (h : Keeps S heap₀ heap) (ha : a ∈ S)
    (hnew : a + sizeofMemoryHeader + len ∈ S) : Keeps S heap₀ (heap.splitBlock a len) := by
  have h₁ := h.modify hnew (f := fun hdr =>
    { hdr with
      size := (heap.headers a).size - len - sizeofMemoryHeader, alloc := 0
      prev := some a, next := (heap.headers a).next, magic1 := magic1, magic2 := magic2 })
    fun _ hhdr => (hhdr.withPrev (some_mem ha)).withNext (h.pointers a).2.1
  have h₂ := h₁.modifySome (h₁.pointers (a + sizeofMemoryHeader + len)).2.1 fun _ hhdr =>
    hhdr.withPrev (some_mem hnew)
  have h₃ := h₂.modify hnew fun _ hhdr =>
    hhdr.withFree (h₂.pointers a).2.2.1 (h₂.pointers a).2.2.2
  have h₄ := h₃.setNextFree (h₃.pointers (a + sizeofMemoryHeader + len)).2.2.1 (some_mem hnew)
  have h₅ := h₄.modifySome (h₄.pointers (a + sizeofMemoryHeader + len)).2.2.2 fun _ hhdr =>
    hhdr.withPrevFree (some_mem hnew)
  exact h₅.modify ha (f := fun hdr =>
    { hdr with
      alloc := 1, size := len, next := some (a + sizeofMemoryHeader + len), prevFree := none
      nextFree := none })
    fun _ hhdr => (hhdr.withNext (some_mem hnew)).withFree none_mem none_mem

theorem Keeps.mergeBefore {b : Nat} (h : Keeps S heap₀ heap) (ha : a ∈ S) (hb : b ∈ S) :
    Keeps S heap₀ (heap.mergeBefore a b) := by
  have h₁ := h.modify hb (f := fun h =>
    { h with
      size := h.size + (sizeofMemoryHeader + (heap.headers a).size)
      next := (heap.headers a).next }) fun _ hhdr => hhdr.withNext (h.pointers a).2.1
  have h₂ := h₁.modifySome (h₁.pointers b).2.1 fun _ hhdr => hhdr.withPrev (some_mem hb)
  exact h₂.write ha pointsInto_zero

theorem Keeps.unlinkFree (h : Keeps S heap₀ heap) (a : Nat) :
    Keeps S heap₀ (heap.unlinkFree a) := by
  unfold Heap.unlinkFree
  split
  · have h₁ := h.setNextFree (h.pointers a).2.2.1 (h.pointers a).2.2.2
    exact h₁.modifySome (h₁.pointers a).2.2.2 fun _ hhdr =>
      hhdr.withPrevFree (h₁.pointers a).2.2.1
  · exact h

theorem Keeps.replaceFree {b : Nat} (h : Keeps S heap₀ heap) (ha : a ∈ S) :
    Keeps S heap₀ (heap.replaceFree a b) := by
  have h₁ := h.modify ha fun _ hhdr => hhdr.withFree (h.pointers b).2.2.1 (h.pointers b).2.2.2
  have h₂ := h₁.setNextFree (h₁.pointers a).2.2.1 (some_mem ha)
  exact h₂.modifySome (h₂.pointers a).2.2.2 fun _ hhdr => hhdr.withPrevFree (some_mem ha)

theorem Keeps.mergeAfter {b : Nat} (h : Keeps S heap₀ heap) (ha : a ∈ S) (hb : b ∈ S) :
    Keeps S heap₀ (heap.mergeAfter a b) := by
  have h₁ := h.modify ha (f := fun h =>
    { h with
      size := h.size + (sizeofMemoryHeader + (heap.headers b).size)
      next := (heap.headers b).next }) fun _ hhdr => hhdr.withNext (h.pointers b).2.1
  have h₂ := (h₁.unlinkFree a).replaceFree (b := b) ha
  have h₃ := h₂.modifySome (h₂.pointers a).2.1 fun _ hhdr => hhdr.withPrev (some_mem ha)
  exact h₃.write hb pointsInto_zero

theorem Keeps.prepend (h : Keeps S heap₀ heap) (ha : a ∈ S) : Keeps S heap₀ (heap.prepend a) := by
  have h₁ := h.modify ha fun _ hhdr => hhdr.withNextFree h.firstFree
  have h₂ := h₁.modifySome h₁.firstFree fun _ hhdr => hhdr.withPrevFree (some_mem ha)
  exact ⟨h₂.headers, some_mem ha, h₂.memory, h₂.buf⟩

theorem freeNeighbour_mem {b : Nat} (hp : ∀ y, p = some y → y ∈ S)
    (hb : heap.freeNeighbour p = some b) : b ∈ S := by
  unfold Heap.freeNeighbour at hb
  split at hb
  · cases hb
  · split at hb
    · cases hb
      exact hp _ rfl
    · cases hb

theorem Keeps.release (h : Keeps S heap₀ heap) (ha : a ∈ S) : Keeps S heap₀ (heap.release a) := by
  unfold Heap.release
  have h₁ := h.modify (f := fun hdr => { hdr with alloc := 0 }) ha fun _ hhdr => hhdr
  dsimp only
  split
  · next prev hprev =>
    have hb := freeNeighbour_mem (h₁.pointers a).1 hprev
    have h₂ := h₁.mergeBefore ha hb
    split
    · next old hold => exact h₂.mergeAfter hb (freeNeighbour_mem (h₂.pointers prev).2.1 hold)
    · exact h₂
  · split
    · next old hold => exact h₁.mergeAfter ha (freeNeighbour_mem (h₁.pointers a).2.1 hold)
    · exact h₁.prepend ha

theorem Represents.keeps (h : Represents heap bs fl) (hfl : fl ⊆ addrs bs) :
    Keeps (addrs bs) heap heap := by
  obtain ⟨h1, h2, -⟩ := h.chain.mem
  obtain ⟨h3, h4, h5⟩ := h.free.mem
  refine ⟨fun x => ?_, fun y hy => hfl (h5 y hy), fun _ _ => rfl, rfl, rfl, rfl⟩
  rintro y (hy | hy | hy | hy)
  · exact h2 x y hy
  · exact h1 x y hy
  · exact hfl (h4 x y hy)
  · exact hfl (h3 x y hy)

/-! ## Allocation -/

theorem HeapInv.subset (h : HeapInv heap bs fl) : fl ⊆ addrs bs := by
  intro x hx
  obtain ⟨b, hb, -⟩ := (h.freeList x).mp hx
  exact mem_addrs.mpr ⟨b, exists_of_blockAt hb⟩

theorem HeapInv.size_eq (h : HeapInv heap bs fl) (hb : b ∈ bs) :
    (heap.headers b.addr).size = b.size ∧ (heap.headers b.addr).alloc = b.alloc.toNat := by
  have hown := h.own b.addr
  rw [blockAt_of_mem h.chain.nodup hb, MemoryHeader.own, Block.own] at hown
  obtain ⟨-, h2, h3, -⟩ := by simpa only [Prod.mk.injEq] using hown
  exact ⟨h2, h3⟩

theorem HeapInv.allocBlock {len : Nat} (h : HeapInv heap bs fl) (hc : c ∈ bs)
    (hfree : c.alloc = false) (hlen : len ≤ c.size) :
    ∃ bs' fl' b, HeapInv (heap.allocBlock c.addr len) bs' fl' ∧
      Keeps (addrs bs') heap (heap.allocBlock c.addr len) ∧
      (b.addr = c.addr ∧ len ≤ b.size ∧ b.alloc = true) ∧
      ∀ d : Block, d.alloc = true → (d ∈ bs' ↔ d = b ∨ d ∈ bs) := by
  obtain ⟨p, q, rfl⟩ := List.append_of_mem hc
  have hmem : c.addr ∈ fl := (h.freeList _).mpr ⟨c, blockAt_of_mem h.chain.nodup hc, hfree⟩
  obtain ⟨f, g, rfl⟩ := List.append_of_mem hmem
  have hkeep := h.keeps h.subset
  obtain ⟨buf, hbuf, htiles, hbound⟩ := h.tiles
  have hnot := (List.nodup_middle.mp h.free.nodup).notMem
  obtain ⟨hp, hq, hpc, hcq⟩ := noFreePair_middle.mp h.apart
  have hca : c.addr ∈ addrs (p ++ c :: q) := mem_addrs.mpr ⟨c, hc, rfl⟩
  unfold Heap.allocBlock
  rw [(h.size_eq hc).1]
  split
  · next hsmall =>
    have hkeep' := hkeep.takeBlock hca
    refine ⟨_, _, { c with alloc := true }, ⟨h.takeBlock, ?_, ?_, ?_, ?_⟩, ?_, ⟨rfl, hlen, rfl⟩, ?_⟩
    · refine ⟨buf, hkeep'.buf.1.trans hbuf, ?_, ?_⟩
      · rw [hkeep'.buf.2.1]
        obtain ⟨m, htp, htc⟩ := tiles_append.mp htiles
        exact tiles_append.mpr ⟨m, htp, htc⟩
      · rw [hkeep'.buf.2.1]
        exact hbound
    · exact List.append_ne_nil_of_right_ne_nil _ (List.cons_ne_nil _ _)
    · intro x
      have hx := h.freeList x
      rw [h.blockAt_insert c rfl] at hx
      rw [h.blockAt_insert { c with alloc := true } rfl]
      grind
    · refine noFreePair_middle.mpr ⟨hp, hq, fun x hx => .inr rfl, fun y hy => .inl rfl⟩
    · have haddrs : addrs (p ++ { c with alloc := true } :: q) = addrs (p ++ c :: q) := by
        simp [addrs]
      rw [haddrs]
      exact hkeep'
    · intro d hd
      have hdc : d ≠ c := by
        rintro rfl
        rw [hfree] at hd
        cases hd
      simp only [List.mem_append, List.mem_cons, hdc, false_or]
      exact or_left_comm
  · next hlarge =>
    have hnew : c.addr + sizeofMemoryHeader + len ∉ addrs (p ++ c :: q) := by
      intro hmem
      obtain ⟨b, hb, hba⟩ := mem_addrs.mp hmem
      have hcases : b = c ∨ b ∈ p ++ q := by
        simp only [List.mem_append, List.mem_cons] at hb ⊢
        tauto
      unfold sizeofMemoryHeader memoryAlignMultiple at *
      rcases hcases with rfl | hother
      · omega
      rcases htiles.apart hother with hle | hle
      · unfold sizeofMemoryHeader at hle
        omega
      · unfold sizeofMemoryHeader at hle
        omega
    have hrep := h.splitBlock hnew fun hmem => hnew (h.subset hmem)
    have hkeep₀ : Keeps (addrs (p ++ { c with size := len, alloc := true } ::
        { addr := c.addr + sizeofMemoryHeader + len, size := c.size - len - sizeofMemoryHeader
          alloc := false } :: q)) heap heap := by
      refine hkeep.mono fun x hx => ?_
      simp only [addrs, List.map_append, List.map_cons, List.mem_append, List.mem_cons] at hx ⊢
      exact hx.imp_right fun hx => hx.imp_right .inr
    have hkeep' : Keeps _ heap (heap.splitBlock c.addr len) :=
      hkeep₀.splitBlock (by simp [addrs]) (by simp [addrs])
    refine ⟨_, _, { c with size := len, alloc := true }, ⟨hrep, ?_, ?_, ?_, ?_⟩, hkeep',
      ⟨rfl, le_rfl, rfl⟩, ?_⟩
    · refine ⟨buf, hkeep'.buf.1.trans hbuf, ?_, ?_⟩
      · rw [hkeep'.buf.2.1]
        obtain ⟨m, htp, rfl, htq⟩ := tiles_append.mp htiles
        refine tiles_append.mpr ⟨c.addr, htp, rfl, rfl, ?_⟩
        have hend : c.addr + sizeofMemoryHeader + len + sizeofMemoryHeader +
            (c.size - len - sizeofMemoryHeader) = c.addr + sizeofMemoryHeader + c.size := by
          omega
        rw [hend]
        exact htq
      · rw [hkeep'.buf.2.1]
        exact hbound
    · exact List.append_ne_nil_of_right_ne_nil _ (List.cons_ne_nil _ _)
    · intro x
      have hx := h.freeList x
      rw [h.blockAt_insert c rfl] at hx
      have hne : c.addr ≠ c.addr + sizeofMemoryHeader + len := by
        unfold sizeofMemoryHeader
        omega
      rw [blockAt_insert_pair (b := { c with size := len, alloc := true })
        (c := { addr := c.addr + sizeofMemoryHeader + len
                size := c.size - len - sizeofMemoryHeader, alloc := false })
        (fun hmem => notMem_addrs h.chain.nodup (List.mem_append_left _ hmem))
        (fun hmem => hnew (by
          simp only [addrs, List.map_append, List.mem_append] at hmem ⊢
          exact .inl hmem)) hne.symm]
      grind
    · have hrest : NoFreePair ([] ++ Block.mk (c.addr + sizeofMemoryHeader + len)
          (c.size - len - sizeofMemoryHeader) false :: q) := by
        refine noFreePair_middle.mpr ⟨.nil, hq, by simp, fun y hy => ?_⟩
        rcases hcq y hy with hcontra | hy'
        · rw [hfree] at hcontra
          cases hcontra
        · exact .inr hy'
      exact noFreePair_middle.mpr ⟨hp, hrest, fun x hx => .inr rfl, fun y hy => .inl rfl⟩
    · intro d hd
      have hdc : d ≠ c := by
        rintro rfl
        rw [hfree] at hd
        cases hd
      have hdn : d ≠ Block.mk (c.addr + sizeofMemoryHeader + len)
          (c.size - len - sizeofMemoryHeader) false := by
        rintro rfl
        cases hd
      simp only [List.mem_append, List.mem_cons, hdc, hdn, false_or]
      exact or_left_comm

/-! ## Release -/

variable {P Q : List Block}

theorem Represents.freeNeighbour_eq (h : Represents heap bs fl) (hb : b ∈ bs) :
    heap.freeNeighbour (some b.addr) = if b.alloc = true then none else some b.addr := by
  have hown := h.own b.addr
  rw [blockAt_of_mem h.chain.nodup hb, MemoryHeader.own, Block.own] at hown
  obtain ⟨-, -, h3, -⟩ := by simpa only [Prod.mk.injEq] using hown
  rw [Heap.freeNeighbour, h3]
  cases b.alloc <;> rfl

theorem Represents.freeNeighbour_prev {p : List Block} (h : Represents heap (p ++ b :: q) fl) :
    heap.freeNeighbour (heap.headers b.addr).prev =
      (p.getLast?.filter fun c => !c.alloc).map Block.addr := by
  have hchain := h.chain
  have haddrs : addrs (p ++ b :: q) = addrs p ++ b.addr :: addrs q := by simp [addrs]
  rw [haddrs] at hchain
  rw [hchain.prev_at, addrs, List.getLast?_map]
  rcases hlast : p.getLast? with _ | c
  · rfl
  · have hc : c ∈ p ++ b :: q := List.mem_append_left _ (List.mem_of_getLast? hlast)
    rw [Option.map_some, h.freeNeighbour_eq hc, Option.filter_some]
    cases c.alloc <;> rfl

theorem Represents.freeNeighbour_next {p : List Block} (h : Represents heap (p ++ b :: q) fl) :
    heap.freeNeighbour (heap.headers b.addr).next =
      (q.head?.filter fun c => !c.alloc).map Block.addr := by
  have hchain := h.chain
  have haddrs : addrs (p ++ b :: q) = addrs p ++ b.addr :: addrs q := by simp [addrs]
  rw [haddrs] at hchain
  rw [hchain.next_at, addrs, List.head?_map]
  rcases hhead : q.head? with _ | c
  · rfl
  · have hc : c ∈ p ++ b :: q :=
      List.mem_append_right _ (List.mem_cons_of_mem _ (List.mem_of_head? hhead))
    rw [Option.map_some, h.freeNeighbour_eq hc, Option.filter_some]
    cases c.alloc <;> rfl

theorem Represents.mergeAfter_exists {p : List Block} {d : Block}
    (h : Represents heap (p ++ c :: d :: q) fl) (hd : d.addr ∈ fl) :
    ∃ fl', Represents (heap.mergeAfter c.addr d.addr)
      (p ++ { c with size := c.size + (sizeofMemoryHeader + d.size) } :: q) fl' ∧
      ∀ x, x ∈ fl' ↔ x = c.addr ∨ x ∈ fl ∧ x ≠ d.addr := by
  obtain ⟨f, g, hfl⟩ := List.append_of_mem hd
  have hnodup := h.free.nodup
  by_cases hc : c.addr ∈ fl
  · obtain ⟨s, t, rfl⟩ := List.append_of_mem hc
    have hne := h.blockAt_pair.1
    have hst : d.addr ∈ s ++ t := by
      rw [List.mem_append, List.mem_cons] at hd
      rw [List.mem_append]
      exact hd.imp_right fun hd => hd.resolve_left hne.symm
    obtain ⟨f', g', hst⟩ := List.append_of_mem hst
    refine ⟨_, h.mergeAfter hfl (.inr ⟨s, t, rfl, hst⟩), fun x => ?_⟩
    have hrest : (s ++ t).Nodup := (List.nodup_middle.mp hnodup).of_cons
    rw [hst] at hrest
    have hnot := (List.nodup_middle.mp hrest).notMem
    have hx : x ∈ s ++ t ↔ x ∈ f' ++ d.addr :: g' := by rw [hst]
    grind
  · refine ⟨_, h.mergeAfter hfl (.inl ⟨hc, rfl, rfl⟩), fun x => ?_⟩
    subst hfl
    grind

theorem Tiles.unique {e' : Nat} (h : Tiles s bs e) (h' : Tiles s bs e') : e = e' := by
  induction bs generalizing s with
  | nil => exact Eq.trans (Eq.symm h) h'
  | cons b bs ih => exact ih h.2 h'.2

theorem Tiles.join {mid : List Block} {m : Block} (h : Tiles s (P ++ (mid ++ Q)) e) (hne : mid ≠ [])
    (hm : Tiles m.addr mid (m.addr + sizeofMemoryHeader + m.size)) :
    Tiles s (P ++ m :: Q) e := by
  obtain ⟨k, hP, hrest⟩ := tiles_append.mp h
  obtain ⟨k', hmid, hQ⟩ := tiles_append.mp hrest
  obtain ⟨b, mid, rfl⟩ := List.exists_cons_of_ne_nil hne
  obtain rfl : m.addr = k := hm.1.symm.trans hmid.1
  obtain rfl := hmid.unique hm
  exact tiles_append.mpr ⟨m.addr, hP, rfl, hQ⟩

theorem HeapInv.mem_free (h : HeapInv heap bs fl) :
    x ∈ fl ↔ ∃ b ∈ bs, b.addr = x ∧ b.alloc = false := by
  rw [h.freeList]
  constructor
  · rintro ⟨b, hb, hfree⟩
    obtain ⟨hmem, rfl⟩ := exists_of_blockAt hb
    exact ⟨b, hmem, rfl, hfree⟩
  · rintro ⟨b, hb, rfl, hfree⟩
    exact ⟨b, blockAt_of_mem h.chain.nodup hb, hfree⟩

theorem HeapInv.join {heap' : Heap} {m : Block} {fl' : List Nat} (mid : List Block)
    (h : HeapInv heap (P ++ (mid ++ Q)) fl) (hrep : Represents heap' (P ++ m :: Q) fl')
    (hkeep : Keeps (addrs (P ++ (mid ++ Q))) heap heap') (hne : mid ≠ [])
    (hm : Tiles m.addr mid (m.addr + sizeofMemoryHeader + m.size)) (hfree : m.alloc = false)
    (hlast : ∀ c ∈ P.getLast?, c.alloc = true) (hhead : ∀ c ∈ Q.head?, c.alloc = true)
    (hfl : ∀ x, x ∈ fl' ↔ x = m.addr ∨ x ∈ fl ∧ x ∉ addrs mid) :
    HeapInv heap' (P ++ m :: Q) fl' := by
  refine ⟨hrep, ?_, ?_, ?_, ?_⟩
  · obtain ⟨buf, hbuf, htiles, hbound⟩ := h.tiles
    refine ⟨buf, hkeep.buf.1.trans hbuf, ?_, ?_⟩
    · rw [hkeep.buf.2.1]
      exact htiles.join hne hm
    · rw [hkeep.buf.2.1]
      exact hbound
  · exact List.append_ne_nil_of_right_ne_nil _ (List.cons_ne_nil _ _)
  · intro x
    rw [hrep.blockAt_insert m rfl, hfl]
    have hnodup := h.chain.nodup
    constructor
    · rintro (rfl | ⟨hx, hnot⟩)
      · exact ⟨m, if_pos rfl, hfree⟩
      obtain ⟨b, hb, rfl, hbfree⟩ := h.mem_free.mp hx
      have hb' : b ∈ P ++ m :: Q := by
        simp only [List.mem_append, List.mem_cons] at hb ⊢
        rcases hb with hb | hb | hb
        · exact .inl hb
        · exact absurd (mem_addrs.mpr ⟨b, hb, rfl⟩) hnot
        · exact .inr (.inr hb)
      have hat := blockAt_of_mem hrep.chain.nodup hb'
      rw [hrep.blockAt_insert m rfl] at hat
      exact ⟨b, hat, hbfree⟩
    · rintro ⟨b, hb, hbfree⟩
      by_cases hx : x = m.addr
      · exact .inl hx
      rw [if_neg hx] at hb
      obtain ⟨hmem, rfl⟩ := exists_of_blockAt hb
      refine .inr ⟨h.mem_free.mpr ⟨b, ?_, rfl, hbfree⟩, ?_⟩
      · simp only [List.mem_append] at hmem ⊢
        exact hmem.imp_right .inr
      intro hmid
      simp only [addrs, List.map_append] at hnodup
      rw [List.nodup_append] at hnodup
      rw [List.nodup_append] at hnodup
      rcases List.mem_append.mp hmem with hmem | hmem
      · exact hnodup.2.2 _ (List.mem_map_of_mem hmem) _ (List.mem_append_left _ hmid) rfl
      · exact hnodup.2.1.2.2 _ hmid _ (List.mem_map_of_mem hmem) rfl
  · have happ := h.apart
    unfold NoFreePair at happ
    rw [List.isChain_append, List.isChain_append] at happ
    exact noFreePair_middle.mpr ⟨happ.1, happ.2.1.2.1, fun c hc => .inl (hlast c hc),
      fun c hc => .inr (hhead c hc)⟩

theorem allocated_join {m : Block} (mid : List Block) (hnodup : (addrs (P ++ (mid ++ Q))).Nodup)
    (hb : b ∈ mid) (hmid : ∀ c ∈ mid, c.alloc = true → c = b) (hm : m.alloc = false) {d : Block}
    (hd : d.alloc = true) : d ∈ P ++ m :: Q ↔ d ∈ P ++ (mid ++ Q) ∧ d ≠ b := by
  have hdm : d ≠ m := by
    rintro rfl
    rw [hm] at hd
    cases hd
  simp only [addrs, List.map_append] at hnodup
  rw [List.nodup_append, List.nodup_append] at hnodup
  simp only [List.mem_append, List.mem_cons, hdm, false_or]
  constructor
  · rintro (hP | hQ)
    · refine ⟨.inl hP, ?_⟩
      rintro rfl
      exact hnodup.2.2 _ (List.mem_map_of_mem hP) _
        (List.mem_append_left _ (List.mem_map_of_mem hb)) rfl
    · refine ⟨.inr (.inr hQ), ?_⟩
      rintro rfl
      exact hnodup.2.1.2.2 _ (List.mem_map_of_mem hb) _ (List.mem_map_of_mem hQ) rfl
  · rintro ⟨hP | hmem | hQ, hne⟩
    · exact .inl hP
    · exact absurd (hmid d hmem hd) hne
    · exact .inr hQ

theorem HeapInv.addr_next {p : List Block} (h : HeapInv heap bs fl) (hbs : bs = p ++ b :: c :: q) :
    c.addr = b.addr + sizeofMemoryHeader + b.size := by
  obtain ⟨buf, -, htiles, -⟩ := h.tiles
  rw [hbs] at htiles
  obtain ⟨k, -, rfl, hc, -⟩ := tiles_append.mp htiles
  exact hc

theorem tiles_pair {n : Nat} (h : c.addr = b.addr + sizeofMemoryHeader + b.size)
    (hn : n = b.addr + sizeofMemoryHeader + (b.size + (sizeofMemoryHeader + c.size))) :
    Tiles b.addr [b, c] n := by
  have hend : b.addr + sizeofMemoryHeader + b.size + sizeofMemoryHeader + c.size = n := by
    omega
  exact ⟨rfl, h, hend⟩

theorem allocated_of_filter {o : Option Block} (h : (o.filter fun c => !c.alloc) = none) :
    ∀ c ∈ o, c.alloc = true := by
  intro c hc
  rw [Option.mem_def] at hc
  rw [hc, Option.filter_some] at h
  cases hca : c.alloc with
  | true => rfl
  | false =>
    rw [hca] at h
    cases h

theorem free_of_filter {o : Option Block} (h : (o.filter fun c => !c.alloc) = some c) :
    o = some c ∧ c.alloc = false := by
  obtain ⟨ho, hfree⟩ := Option.filter_eq_some_iff.mp h
  exact ⟨ho, by simpa using hfree⟩

theorem NoFreePair.next (hq : NoFreePair q) (h : (q.head?.filter fun c => !c.alloc) = some c) :
    ∃ q', q = c :: q' ∧ c.alloc = false ∧ ∀ y ∈ q'.head?, y.alloc = true := by
  obtain ⟨hhead, hfree⟩ := free_of_filter h
  obtain ⟨q', rfl⟩ := List.head?_eq_some_iff.mp hhead
  refine ⟨q', rfl, hfree, fun y hy => ?_⟩
  exact ((List.isChain_cons.mp hq).1 y hy).resolve_left (by rw [hfree]; decide)

theorem NoFreePair.prev {p : List Block} (hp : NoFreePair p)
    (h : (p.getLast?.filter fun c => !c.alloc) = some c) :
    ∃ p', p = p' ++ [c] ∧ c.alloc = false ∧ ∀ y ∈ p'.getLast?, y.alloc = true := by
  obtain ⟨hlast, hfree⟩ := free_of_filter h
  obtain ⟨p', rfl⟩ := List.getLast?_eq_some_iff.mp hlast
  refine ⟨p', rfl, hfree, fun y hy => ?_⟩
  have hpair := (noFreePair_middle.mp hp).2.2.1 y hy
  exact hpair.resolve_right (by rw [hfree]; decide)

theorem HeapInv.release {p : List Block} (h : HeapInv heap (p ++ b :: q) fl)
    (halloc : b.alloc = true) :
    ∃ bs' fl', HeapInv (heap.release b.addr) bs' fl' ∧
      Keeps (addrs (p ++ b :: q)) heap (heap.release b.addr) ∧
      ∀ d : Block, d.alloc = true → (d ∈ bs' ↔ d ∈ p ++ b :: q ∧ d ≠ b) := by
  have hb : b ∈ p ++ b :: q := List.mem_append_right _ List.mem_cons_self
  have hkeep := (h.keeps h.subset).release (mem_addrs.mpr ⟨b, hb, rfl⟩)
  have hnot : b.addr ∉ fl := by
    intro hmem
    obtain ⟨c, hc, hfree⟩ := (h.freeList _).mp hmem
    rw [blockAt_of_mem h.chain.nodup hb] at hc
    cases hc
    rw [halloc] at hfree
    cases hfree
  have hmark := h.markFree
  have hfreeMem : ∀ {c : Block}, c ∈ p ++ b :: q → c.alloc = false → c.addr ∈ fl := fun hc hfree =>
    h.mem_free.mpr ⟨_, hc, rfl, hfree⟩
  obtain ⟨hp, hq, hpb, hbq⟩ := noFreePair_middle.mp h.apart
  have hnodup := h.chain.nodup
  rcases hbefore : p.getLast?.filter fun c => !c.alloc with _ | c
  · have hlast := allocated_of_filter hbefore
    rcases hafter : q.head?.filter fun c => !c.alloc with _ | d
    · -- Neither neighbour is free.
      have heq : heap.release b.addr =
          (heap.modify b.addr fun h => { h with alloc := 0 }).prepend b.addr := by
        unfold Heap.release
        dsimp only
        rw [hmark.freeNeighbour_prev, hbefore]
        rw [hmark.freeNeighbour_next, hafter]
        rfl
      rw [heq] at hkeep ⊢
      refine ⟨_, _, h.join [b] (hmark.prepend hnot) hkeep (List.cons_ne_nil _ _)
        ⟨rfl, rfl⟩ rfl hlast (allocated_of_filter hafter) fun x => ?_, hkeep, fun d hd => ?_⟩
      · simp only [addrs, List.map_cons, List.map_nil, List.mem_cons, List.not_mem_nil, or_false]
        grind
      · refine allocated_join [b] hnodup List.mem_cons_self ?_ rfl hd
        intro c hc _
        exact List.mem_singleton.mp hc
    · -- The block after is free.
      obtain ⟨q', rfl, hfree, hhead⟩ := hq.next hafter
      have heq : heap.release b.addr =
          (heap.modify b.addr fun h => { h with alloc := 0 }).mergeAfter b.addr d.addr := by
        unfold Heap.release
        dsimp only
        rw [hmark.freeNeighbour_prev, hbefore]
        rw [hmark.freeNeighbour_next, hafter]
        rfl
      rw [heq] at hkeep ⊢
      obtain ⟨fl', hrep, hfl⟩ := hmark.mergeAfter_exists (hfreeMem (by simp) hfree)
      refine ⟨_, _, h.join [b, d] hrep hkeep (List.cons_ne_nil _ _) ?_ rfl hlast hhead
        fun x => ?_, hkeep, fun d' hd' => ?_⟩
      · exact tiles_pair (h.addr_next (p := p) (b := b) (c := d) rfl) rfl
      · rw [hfl]
        simp only [addrs, List.map_cons, List.map_nil, List.mem_cons, List.not_mem_nil, or_false]
        grind
      · refine allocated_join [b, d] hnodup List.mem_cons_self ?_ rfl hd'
        intro c hc halloc'
        simp only [List.mem_cons, List.not_mem_nil, or_false] at hc
        rcases hc with rfl | rfl
        · rfl
        · rw [hfree] at halloc'
          cases halloc'
  · obtain ⟨p', rfl, hcfree, hlast⟩ := hp.prev hbefore
    have hlist : (p' ++ [c]) ++ b :: q = p' ++ c :: b :: q := by simp
    have hlist' : (p' ++ [c]) ++ { b with alloc := false } :: q =
        p' ++ c :: { b with alloc := false } :: q := by simp
    have hmark' := hmark
    rw [hlist'] at hmark'
    have hmerged := hmark'.mergeBefore (b := { b with alloc := false }) hnot
    have hcb : c.alloc = true → c = b := by
      intro hc
      rw [hcfree] at hc
      cases hc
    rcases hafter : q.head?.filter fun c => !c.alloc with _ | d
    · -- The block before is free.
      have heq : heap.release b.addr =
          (heap.modify b.addr fun h => { h with alloc := 0 }).mergeBefore b.addr c.addr := by
        unfold Heap.release
        dsimp only
        rw [hmark.freeNeighbour_prev, hbefore]
        dsimp only [Option.map_some]
        rw [hmerged.freeNeighbour_next, hafter]
        rfl
      rw [heq] at hkeep ⊢
      rw [hlist] at h hkeep hnodup ⊢
      refine ⟨_, _, h.join [c, b] hmerged hkeep (List.cons_ne_nil _ _) ?_ hcfree hlast
        (allocated_of_filter hafter) fun x => ?_, hkeep, fun d hd => ?_⟩
      · exact tiles_pair (h.addr_next (p := p') (b := c) (c := b) rfl) rfl
      · have hc := hfreeMem (c := c) (by simp) hcfree
        simp only [addrs, List.map_cons, List.map_nil, List.mem_cons, List.not_mem_nil, or_false]
        grind
      · refine allocated_join [c, b]
          (m := { c with size := c.size + (sizeofMemoryHeader + b.size) }) hnodup
          (List.mem_cons_of_mem _ List.mem_cons_self) ?_ hcfree hd
        intro c' hc' halloc'
        simp only [List.mem_cons, List.not_mem_nil, or_false] at hc'
        rcases hc' with rfl | rfl
        · exact hcb halloc'
        · rfl
    · -- Both neighbours are free.
      obtain ⟨q', rfl, hfree, hhead⟩ := hq.next hafter
      have heq : heap.release b.addr =
          ((heap.modify b.addr fun h => { h with alloc := 0 }).mergeBefore b.addr
            c.addr).mergeAfter c.addr d.addr := by
        unfold Heap.release
        dsimp only
        rw [hmark.freeNeighbour_prev, hbefore]
        dsimp only [Option.map_some]
        rw [hmerged.freeNeighbour_next, hafter]
        rfl
      rw [heq] at hkeep ⊢
      obtain ⟨fl', hrep, hfl⟩ := hmerged.mergeAfter_exists (hfreeMem (by simp) hfree)
      rw [hlist] at h hkeep hnodup ⊢
      refine ⟨_, _, h.join [c, b, d] hrep hkeep (List.cons_ne_nil _ _) ?_ hcfree hlast
        hhead fun x => ?_, hkeep, fun d' hd' => ?_⟩
      · have hb := h.addr_next (p := p') (b := c) (c := b) rfl
        have hd := h.addr_next (p := p' ++ [c]) (b := b) (c := d) (q := q') (by simp)
        have hend : c.addr + sizeofMemoryHeader + c.size + sizeofMemoryHeader + b.size +
            sizeofMemoryHeader + d.size = c.addr + sizeofMemoryHeader +
              (c.size + (sizeofMemoryHeader + b.size) + (sizeofMemoryHeader + d.size)) := by
          omega
        have hdaddr : d.addr =
            c.addr + sizeofMemoryHeader + c.size + sizeofMemoryHeader + b.size := by
          rw [hd, hb]
        exact ⟨rfl, hb, hdaddr, hend⟩
      · rw [hfl]
        simp only [addrs, List.map_cons, List.map_nil, List.mem_cons, List.not_mem_nil, or_false]
        grind
      · refine allocated_join [c, b, d]
          (m := { c with
            size := c.size + (sizeofMemoryHeader + b.size) + (sizeofMemoryHeader + d.size) })
          hnodup
          (List.mem_cons_of_mem _ List.mem_cons_self) ?_ hcfree hd'
        intro c' hc' halloc'
        simp only [List.mem_cons, List.not_mem_nil, or_false] at hc'
        rcases hc' with rfl | rfl | rfl
        · exact hcb halloc'
        · rfl
        · rw [hfree] at halloc'
          cases halloc'

end TfPsaCrypto.Platform
