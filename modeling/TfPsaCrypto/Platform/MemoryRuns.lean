import TfPsaCrypto.Platform.MemoryHeap

/-!
# Runs of the buffer allocator

The calls of a caller that frees only what it holds, and what it can rely on in every run.
-/

namespace TfPsaCrypto.Platform

open DoublyLinked

variable {heap : Heap}

/-! ## The calls -/

variable {bs : List Block} {fl : List Nat} {b : Block}

theorem HeapInv.withMemory (h : HeapInv heap bs fl) (memory : Nat → UInt8) (verify : Nat) :
    HeapInv { heap with memory := memory, verify := verify } bs fl :=
  ⟨⟨h.own, h.chain, h.free⟩, h.tiles, h.nonempty, h.freeList, h.apart⟩

theorem HeapInv.first_ne_none (h : HeapInv heap bs fl) : heap.buf ≠ none ∧ heap.first ≠ none := by
  obtain ⟨buf, hbuf, -⟩ := h.tiles
  obtain ⟨b, bs', rfl⟩ := List.exists_cons_of_ne_nil h.nonempty
  have hfirst : heap.first = some b.addr := h.chain.first
  rw [hbuf, hfirst]
  exact ⟨Option.some_ne_none _, Option.some_ne_none _⟩

theorem le_roundUp (len : Nat) : len ≤ roundUp len := by
  unfold roundUp memoryAlignMultiple
  split <;> omega

theorem HeapInv.size_lt (h : HeapInv heap bs fl) (hb : b ∈ bs) :
    b.size + sizeofMemoryHeader ≤ 2 ^ 64 := by
  obtain ⟨buf, -, htiles, hbound⟩ := h.tiles
  have hle := (htiles.bounds hb).2
  omega

def NoRoom (bs : List Block) (n size : Nat) : Prop :=
  n = 0 ∨ size = 0 ∨ 2 ^ 64 ≤ n * size ∨ ∀ b ∈ bs, b.alloc = false → b.size < roundUp (n * size)

theorem HeapInv.findFit_eq (h : HeapInv heap bs fl) (len : Nat) :
    (findFit heap.headers len (heap.len + 1) heap.firstFree = some none ∧
      ∀ b ∈ bs, b.alloc = false → b.size < len) ∨
    ∃ c ∈ bs, c.alloc = false ∧ len ≤ c.size ∧
      findFit heap.headers len (heap.len + 1) heap.firstFree = some (some c.addr) := by
  have hfit : findFit heap.headers len (heap.len + 1) fl.head? = _ :=
    h.toRepresents.findFit_eq (s := []) (t := fl) rfl (h.length_le.2.trans (Nat.le_succ _))
  rw [← h.free.first] at hfit
  rcases hfind : fl.find? (fun x => (heap.headers x).size ≥ len) with _ | x
  · left
    refine ⟨by rw [hfit, hfind], fun b hb hfree => ?_⟩
    have hnone := List.find?_eq_none.mp hfind b.addr (h.mem_free.mpr ⟨b, hb, rfl, hfree⟩)
    rw [(h.size_eq hb).1] at hnone
    simpa using hnone
  · right
    obtain ⟨c, hc, rfl, hfree⟩ := h.mem_free.mp (List.mem_of_find?_eq_some hfind)
    have hsize := List.find?_some hfind
    rw [(h.size_eq hc).1] at hsize
    exact ⟨c, hc, hfree, by simpa using hsize, by rw [hfit, hfind]⟩

theorem HeapInv.calloc (h : HeapInv heap bs fl) (n size : Nat) :
    (bufferAllocCalloc heap n size = some (none, heap) ∧ NoRoom bs n size) ∨
    ∃ heap' bs' fl' b,
      bufferAllocCalloc heap n size = some (some (b.addr + sizeofMemoryHeader), heap') ∧
      ¬ NoRoom bs n size ∧ HeapInv heap' bs' fl' ∧ n * size ≤ b.size ∧ b.alloc = true ∧
      0 < n * size ∧ (heap'.buf = heap.buf ∧ heap'.len = heap.len) ∧
      (∀ d : Block, d.alloc = true → (d ∈ bs' ↔ d = b ∨ d ∈ bs)) ∧
      (∀ d ∈ bs, d.alloc = true → d.addr ≠ b.addr) ∧
      (∀ x, b.addr + sizeofMemoryHeader ≤ x → x < b.addr + sizeofMemoryHeader + n * size →
        heap'.memory x = 0) ∧
      ∀ x, (∀ y ∈ addrs bs', ¬ (y ≤ x ∧ x < y + sizeofMemoryHeader)) →
        ¬ (b.addr + sizeofMemoryHeader ≤ x ∧ x < b.addr + sizeofMemoryHeader + n * size) →
        heap'.memory x = heap.memory x := by
  obtain ⟨hbuf, hfirst⟩ := h.first_ne_none
  unfold bufferAllocCalloc
  rw [if_neg (by rw [not_or]; exact ⟨hbuf, hfirst⟩)]
  dsimp only
  split
  · next hzero =>
    left
    refine ⟨rfl, ?_⟩
    rcases hzero with hn | hs | hdiv
    · exact .inl hn
    · exact .inr (.inl hs)
    · rcases Nat.eq_zero_or_pos n with hn | hn
      · exact .inl hn
      · refine .inr (.inr (.inl (Nat.not_lt.mp fun hlt => hdiv ?_)))
        rw [Nat.mod_eq_of_lt hlt, Nat.mul_div_cancel_left _ hn]
  next hzero =>
  obtain ⟨hn, hs, hdiv⟩ : n ≠ 0 ∧ size ≠ 0 ∧ n * size % 2 ^ 64 / n = size := by
    rw [not_or, not_or, not_not] at hzero
    exact hzero
  have hlt : n * size < 2 ^ 64 := by
    have hle := Nat.div_mul_le_self (n * size % 2 ^ 64) n
    rw [hdiv, Nat.mul_comm] at hle
    exact lt_of_le_of_lt hle (Nat.mod_lt _ (by decide))
  rw [Nat.mod_eq_of_lt hlt]
  split
  · next hbig =>
    refine .inl ⟨rfl, .inr (.inr (.inr fun b hb _ => ?_))⟩
    have hb' := h.size_lt hb
    have hround := le_roundUp (n * size)
    unfold sizeofMemoryHeader at hb'
    unfold memoryAlignMultiple at hbig
    omega
  rcases h.findFit_eq (roundUp (n * size)) with ⟨hfit, hnone⟩ | ⟨c, hc, hfree, hsize, hfit⟩
  · rw [hfit]
    exact .inl ⟨rfl, .inr (.inr (.inr hnone))⟩
  right
  obtain ⟨bs', fl', b, hinv, hkeep, ⟨hbaddr, hbsize, hballoc⟩, hmem⟩ := h.allocBlock hc hfree hsize
  rw [hfit]
  dsimp only
  rw [if_neg (by rw [(h.size_eq hc).2, hfree]; decide), hinv.verified_eq, ← hbaddr]
  rw [← hbaddr] at hinv hkeep
  refine ⟨_, bs', fl', b, rfl, ?_, hinv.withMemory _ _, (le_roundUp _).trans hbsize, hballoc,
    Nat.mul_pos (Nat.pos_of_ne_zero hn) (Nat.pos_of_ne_zero hs),
    ⟨hkeep.buf.1, hkeep.buf.2.1⟩, hmem, ?_,
    fun x hlow hhigh => if_pos ⟨hlow, hhigh⟩, fun x hx hout => ?_⟩
  · rintro (hn' | hs' | hge | hall)
    · exact hn hn'
    · exact hs hs'
    · exact absurd hlt (Nat.not_lt.mpr hge)
    · exact absurd (hall c hc hfree) (Nat.not_lt.mpr hsize)
  · rintro d hd hda heq
    rw [hbaddr] at heq
    have hdc := blockAt_of_mem h.chain.nodup hd
    rw [heq, blockAt_of_mem h.chain.nodup hc] at hdc
    cases hdc
    rw [hfree] at hda
    cases hda
  · exact (if_neg hout).trans (hkeep.memory x hx)

theorem HeapInv.bufferAllocFree (h : HeapInv heap bs fl) (hb : b ∈ bs) (halloc : b.alloc = true)
    (hsize : 0 < b.size) :
    ∃ heap' bs' fl', bufferAllocFree heap (some (b.addr + sizeofMemoryHeader)) = some heap' ∧
      HeapInv heap' bs' fl' ∧ Keeps (addrs bs) heap heap' ∧
      ∀ d : Block, d.alloc = true → (d ∈ bs' ↔ d ∈ bs ∧ d ≠ b) := by
  obtain ⟨p, q, rfl⟩ := List.append_of_mem hb
  obtain ⟨bs', fl', hinv, hkeep, hmem⟩ := h.release halloc
  obtain ⟨buf, hbuf, htiles, -⟩ := h.tiles
  obtain ⟨first, hfirst⟩ := Option.ne_none_iff_exists'.mp h.first_ne_none.2
  obtain ⟨hlow, hhigh⟩ := htiles.bounds hb
  refine ⟨_, bs', fl', ?_, hinv, hkeep, hmem⟩
  unfold Platform.bufferAllocFree
  rw [hbuf, hfirst]
  dsimp only
  rw [if_neg (by omega), Nat.add_sub_cancel, if_neg (not_not.mpr (h.verifyHeader_eq hb)),
    if_neg (by rw [(h.size_eq hb).2, halloc]; decide), hinv.verified_eq]

def alignedBuf (buf : Nat) : Nat :=
  buf + if buf % memoryAlignMultiple ≠ 0 then memoryAlignMultiple - buf % memoryAlignMultiple else 0

theorem alignedBuf_le (buf : Nat) {len : Nat}
    (hlen : sizeofMemoryHeader + memoryAlignMultiple ≤ len) :
    buf ≤ alignedBuf buf ∧ alignedBuf buf + sizeofMemoryHeader ≤ buf + len := by
  unfold alignedBuf sizeofMemoryHeader memoryAlignMultiple at *
  split <;> omega

def wholeBlock (buf len : Nat) : Block :=
  { addr := alignedBuf buf, size := buf + len - alignedBuf buf - sizeofMemoryHeader
    alloc := false }

theorem mbedtlsMemoryBufferAllocInit_eq (memory : Nat → UInt8) {buf len : Nat}
    (hlen : sizeofMemoryHeader + memoryAlignMultiple ≤ len) :
    mbedtlsMemoryBufferAllocInit memory buf len =
      { ((emptyHeap memory).memset (alignedBuf buf) (len - (alignedBuf buf - buf))).modify
          (alignedBuf buf) fun hdr =>
            { hdr with
              size := len - (alignedBuf buf - buf) - sizeofMemoryHeader, magic1 := magic1
              magic2 := magic2 } with
        buf := some (alignedBuf buf), len := len - (alignedBuf buf - buf)
        first := some (alignedBuf buf), firstFree := some (alignedBuf buf) } := by
  unfold mbedtlsMemoryBufferAllocInit alignedBuf
  rw [if_neg (Nat.not_lt.mpr hlen)]
  simp only [Nat.add_sub_cancel_left]

theorem heapInv_init (memory : Nat → UInt8) {buf len : Nat}
    (hlen : sizeofMemoryHeader + memoryAlignMultiple ≤ len) (hbound : buf + len ≤ 2 ^ 64) :
    HeapInv (mbedtlsMemoryBufferAllocInit memory buf len) [wholeBlock buf len]
      [alignedBuf buf] := by
  obtain ⟨hle, hfits⟩ := alignedBuf_le buf hlen
  have hsize : len - (alignedBuf buf - buf) - sizeofMemoryHeader =
      buf + len - alignedBuf buf - sizeofMemoryHeader := by omega
  rw [mbedtlsMemoryBufferAllocInit_eq memory hlen]
  have hheaders : ∀ x, (((emptyHeap memory).memset (alignedBuf buf)
      (len - (alignedBuf buf - buf))).modify (alignedBuf buf) fun hdr =>
        { hdr with
          size := len - (alignedBuf buf - buf) - sizeofMemoryHeader, magic1 := magic1
          magic2 := magic2 }).headers x =
      if x = alignedBuf buf then
        { MemoryHeader.zero with
          size := (wholeBlock buf len).size, magic1 := magic1, magic2 := magic2 }
      else .zero := by
    intro x
    rw [headers_modify, hsize]
    rfl
  have hblock : ∀ x, blockAt [wholeBlock buf len] x =
      if x = alignedBuf buf then some (wholeBlock buf len) else none := fun _ => rfl
  have hnext : ∀ x, nextOf [alignedBuf buf] x = none := by
    intro x
    rw [nextOf]
    split <;> rfl
  refine ⟨⟨fun x => ?_, ⟨List.nodup_singleton _, fun x => ?_, fun x => ?_, rfl⟩,
    ⟨List.nodup_singleton _, fun x => ?_, fun x => ?_, rfl⟩⟩, ⟨alignedBuf buf, rfl, ⟨rfl, ?_⟩, ?_⟩,
    List.cons_ne_nil _ _, fun x => ?_, .singleton _⟩
  · dsimp only
    rw [hheaders, hblock]
    by_cases hx : x = alignedBuf buf
    · rw [if_pos hx, if_pos hx]
      rfl
    · rw [if_neg hx, if_neg hx]
      rfl
  · dsimp only
    rw [hheaders]
    change _ = nextOf [alignedBuf buf] x
    rw [hnext]
    split <;> rfl
  · dsimp only
    rw [hheaders]
    split <;> rfl
  · dsimp only
    rw [hheaders, hnext]
    split <;> rfl
  · dsimp only
    rw [hheaders]
    split <;> rfl
  · change alignedBuf buf + sizeofMemoryHeader +
      (buf + len - alignedBuf buf - sizeofMemoryHeader) =
        alignedBuf buf + (len - (alignedBuf buf - buf))
    omega
  · dsimp only
    omega
  · rw [List.mem_singleton, hblock]
    constructor
    · rintro rfl
      exact ⟨_, if_pos rfl, rfl⟩
    · rintro ⟨b, hb, -⟩
      by_contra hne
      rw [if_neg hne] at hb
      cases hb

/-! ## Runs -/

structure Allocation where
  ptr : Nat
  len : Nat
  deriving DecidableEq, Repr

/-- A call of a caller that frees only what it holds and writes only there, and what the caller
holds before and after. -/
inductive HeapStep : Heap × List Allocation → Heap × List Allocation → Prop
  | callocFails {heap heap' : Heap} {live : List Allocation} {n size : Nat}
      (h : bufferAllocCalloc heap n size = some (none, heap')) :
      HeapStep (heap, live) (heap', live)
  | calloc {heap heap' : Heap} {live : List Allocation} {n size p : Nat}
      (h : bufferAllocCalloc heap n size = some (some p, heap')) :
      HeapStep (heap, live) (heap', { ptr := p, len := n * size } :: live)
  | freeNull {heap heap' : Heap} {live : List Allocation}
      (h : bufferAllocFree heap none = some heap') : HeapStep (heap, live) (heap', live)
  | free {heap heap' : Heap} {live : List Allocation} {a : Allocation} (ha : a ∈ live)
      (h : bufferAllocFree heap (some a.ptr) = some heap') :
      HeapStep (heap, live) (heap', live.erase a)
  | store {heap : Heap} {live : List Allocation} {a : Allocation} {i : Nat} {v : UInt8}
      (ha : a ∈ live) (hi : i < a.len) :
      HeapStep (heap, live)
        ({ heap with memory := fun x => if x = a.ptr + i then v else heap.memory x }, live)
  | setVerify {heap : Heap} {live : List Allocation} {verify : Nat} :
      HeapStep (heap, live) (mbedtlsMemoryBufferSetVerify heap verify, live)

structure Holds (live : List Allocation) (bs : List Block) : Prop where
  nodup : (live.map Allocation.ptr).Nodup
  inside : ∀ a ∈ live, 0 < a.len ∧
    ∃ b ∈ bs, b.alloc = true ∧ a.ptr = b.addr + sizeofMemoryHeader ∧ a.len ≤ b.size
  all : ∀ b ∈ bs, b.alloc = true → ∃ a ∈ live, a.ptr = b.addr + sizeofMemoryHeader

variable {live : List Allocation}

theorem Holds.block (h : Holds live bs) {a : Allocation} (ha : a ∈ live) :
    ∃ b ∈ bs, b.alloc = true ∧ a.ptr = b.addr + sizeofMemoryHeader ∧ 0 < a.len ∧
      a.len ≤ b.size := by
  obtain ⟨hpos, b, hb, halloc, hptr, hlen⟩ := h.inside a ha
  exact ⟨b, hb, halloc, hptr, hpos, hlen⟩

theorem Holds.calloc {bs' : List Block} {n : Nat} (h : Holds live bs) (halloc : b.alloc = true)
    (hn : 0 < n) (hlen : n ≤ b.size)
    (hmem : ∀ d : Block, d.alloc = true → (d ∈ bs' ↔ d = b ∨ d ∈ bs))
    (hne : ∀ d ∈ bs, d.alloc = true → d.addr ≠ b.addr) :
    Holds ({ ptr := b.addr + sizeofMemoryHeader, len := n } :: live) bs' := by
  refine ⟨?_, ?_, ?_⟩
  · rw [List.map_cons, List.nodup_cons]
    refine ⟨fun hptr => ?_, h.nodup⟩
    obtain ⟨a, ha, hptr⟩ := List.mem_map.mp hptr
    obtain ⟨d, hd, hda, hdptr, -⟩ := h.block ha
    refine hne d hd hda (Nat.add_right_cancel (hdptr.symm.trans hptr))
  · intro a ha
    rcases List.mem_cons.mp ha with rfl | ha
    · exact ⟨hn, b, (hmem b halloc).mpr (.inl rfl), halloc, rfl, hlen⟩
    · obtain ⟨d, hd, hda, hptr, hpos, hle⟩ := h.block ha
      exact ⟨hpos, d, (hmem d hda).mpr (.inr hd), hda, hptr, hle⟩
  · intro d hd hda
    rcases (hmem d hda).mp hd with rfl | hd
    · exact ⟨_, List.mem_cons_self, rfl⟩
    · obtain ⟨a, ha, hptr⟩ := h.all d hd hda
      exact ⟨a, List.mem_cons_of_mem _ ha, hptr⟩

theorem Holds.free {bs' : List Block} {a : Allocation} (h : Holds live bs) (ha : a ∈ live)
    (hptr : a.ptr = b.addr + sizeofMemoryHeader) (hb : b ∈ bs) (hnodup : (addrs bs).Nodup)
    (hmem : ∀ d : Block, d.alloc = true → (d ∈ bs' ↔ d ∈ bs ∧ d ≠ b)) :
    Holds (live.erase a) bs' := by
  have hlive : live.Nodup := List.Nodup.of_map _ h.nodup
  refine ⟨h.nodup.sublist (List.erase_sublist.map _), ?_, ?_⟩
  · intro a' ha'
    obtain ⟨hne, ha'⟩ := (List.Nodup.mem_erase_iff hlive).mp ha'
    obtain ⟨d, hd, hda, hdptr, hpos, hle⟩ := h.block ha'
    refine ⟨hpos, d, (hmem d hda).mpr ⟨hd, ?_⟩, hda, hdptr, hle⟩
    rintro rfl
    exact hne (List.inj_on_of_nodup_map h.nodup ha' ha (hdptr.trans hptr.symm))
  · intro d hd hda
    obtain ⟨hd, hne⟩ := (hmem d hda).mp hd
    obtain ⟨a', ha', hptr'⟩ := h.all d hd hda
    refine ⟨a', (List.Nodup.mem_erase_iff hlive).mpr ⟨?_, ha'⟩, hptr'⟩
    rintro rfl
    have haddr : d.addr = b.addr := Nat.add_right_cancel (hptr'.symm.trans hptr)
    exact hne (List.inj_on_of_nodup_map hnodup hd hb haddr)

/-- The state of a heap in the region `region`, and what a caller holds of it. -/
def HeapState (region : Option Nat × Nat) (s : Heap × List Allocation) : Prop :=
  (s.1.buf, s.1.len) = region ∧ ∃ bs fl, HeapInv s.1 bs fl ∧ Holds s.2 bs

theorem heapState_step {region : Option Nat × Nat} {s s' : Heap × List Allocation}
    (h : HeapState region s) (hstep : HeapStep s s') : HeapState region s' := by
  obtain ⟨hregion, bs, fl, hinv, hholds⟩ := h
  cases hstep with
  | @callocFails heap heap' live n size hcall =>
    rcases hinv.calloc n size with ⟨hnull, -⟩ | ⟨_, _, _, _, hsome, -⟩
    · rw [hnull] at hcall
      cases hcall
      exact ⟨hregion, bs, fl, hinv, hholds⟩
    · rw [hsome] at hcall
      cases hcall
  | @calloc heap heap' live n size p hcall =>
    rcases hinv.calloc n size with
      ⟨hnull, -⟩ | ⟨heap₁, bs', fl', b, hsome, -, hinv', hsize, halloc, hpos, hbuf, hmem, hne, -⟩
    · rw [hnull] at hcall
      cases hcall
    · rw [hsome] at hcall
      cases hcall
      refine ⟨?_, bs', fl', hinv', hholds.calloc halloc hpos hsize hmem hne⟩
      rw [hbuf.1, hbuf.2, hregion]
  | freeNull hcall =>
    cases hcall
    exact ⟨hregion, bs, fl, hinv, hholds⟩
  | @free heap heap' live a ha hcall =>
    obtain ⟨b, hb, halloc, hptr, hpos, hlen⟩ := hholds.block ha
    obtain ⟨heap₁, bs', fl', hfree, hinv', hkeep, hmem⟩ :=
      hinv.bufferAllocFree hb halloc (lt_of_lt_of_le hpos hlen)
    rw [hptr, hfree] at hcall
    cases hcall
    refine ⟨?_, bs', fl', hinv', hholds.free ha hptr hb hinv.chain.nodup hmem⟩
    rw [hkeep.buf.1, hkeep.buf.2.1, hregion]
  | store ha hi => exact ⟨hregion, bs, fl, hinv.withMemory _ _, hholds⟩
  | setVerify => exact ⟨hregion, bs, fl, hinv.withMemory _ _, hholds⟩

theorem heapState_run {region : Option Nat × Nat} {s s' : Heap × List Allocation}
    (h : HeapState region s) (hrun : Relation.ReflTransGen HeapStep s s') :
    HeapState region s' := by
  induction hrun with
  | refl => exact h
  | tail _ hstep ih => exact heapState_step ih hstep

/-! ## What a caller can rely on -/

structure SoundHeap (buf len : Nat) (heap : Heap) (live : List Allocation) (bs : List Block)
    (fl : List Nat) : Prop where
  inv : HeapInv heap bs fl
  tiles : Tiles (alignedBuf buf) bs (buf + len)
  chain : ∀ x y, (heap.headers x).next = some y ↔ (heap.headers y).prev = some x
  freeChain : ∀ x y, (heap.headers x).nextFree = some y ↔ (heap.headers y).prevFree = some x
  verified : verifyChain heap = some 0
  inside : ∀ a ∈ live, ∃ b ∈ bs, b.alloc = true ∧ a.ptr = b.addr + sizeofMemoryHeader ∧
    a.len ≤ b.size
  disjoint : live.Pairwise fun a a' => a.ptr + a.len ≤ a'.ptr ∨ a'.ptr + a'.len ≤ a.ptr
  released : live = [] → bs = [wholeBlock buf len]

/-- What the calls do to a heap of which a caller holds `live`. -/
structure SoundCalls (heap : Heap) (live : List Allocation) (bs : List Block) : Prop where
  calloc : ∀ n size,
    (bufferAllocCalloc heap n size = some (none, heap) ∧ NoRoom bs n size) ∨
    ∃ p heap', bufferAllocCalloc heap n size = some (some p, heap') ∧ ¬ NoRoom bs n size ∧
      (∀ i < n * size, heap'.memory (p + i) = 0) ∧
      ∀ a ∈ live, (p + n * size ≤ a.ptr ∨ a.ptr + a.len ≤ p) ∧
        ∀ i < a.len, heap'.memory (a.ptr + i) = heap.memory (a.ptr + i)
  free : ∀ a ∈ live, ∃ heap', bufferAllocFree heap (some a.ptr) = some heap' ∧
    ∀ a' ∈ live, a' ≠ a → ∀ i < a'.len, heap'.memory (a'.ptr + i) = heap.memory (a'.ptr + i)
  freeNull : bufferAllocFree heap none = some heap

theorem HeapInv.blocks_apart {d : Block} (h : HeapInv heap bs fl) (hb : b ∈ bs) (hd : d ∈ bs)
    (hne : d ≠ b) :
    d.addr + sizeofMemoryHeader + d.size ≤ b.addr ∨
      b.addr + sizeofMemoryHeader + b.size ≤ d.addr := by
  obtain ⟨buf, -, htiles, -⟩ := h.tiles
  obtain ⟨p, q, rfl⟩ := List.append_of_mem hb
  refine htiles.apart ?_
  simp only [List.mem_append, List.mem_cons] at hd ⊢
  exact hd.imp_right fun hd => hd.resolve_left hne

theorem HeapInv.data_outside {i : Nat} (h : HeapInv heap bs fl) (hb : b ∈ bs) (hi : i < b.size) :
    ∀ y ∈ addrs bs, ¬ (y ≤ b.addr + sizeofMemoryHeader + i ∧
      b.addr + sizeofMemoryHeader + i < y + sizeofMemoryHeader) := by
  intro y hy
  obtain ⟨d, hd, rfl⟩ := mem_addrs.mp hy
  by_cases hne : d = b
  · rw [hne]
    omega
  · rcases h.blocks_apart hb hd hne with hle | hle <;> omega

theorem soundCalls (h : HeapInv heap bs fl) (hholds : Holds live bs) : SoundCalls heap live bs := by
  refine ⟨fun n size => ?_, fun a ha => ?_, rfl⟩
  · rcases h.calloc n size with hnull |
      ⟨heap', bs', fl', b, hcall, hroom, hinv', hsize, halloc, -, -, hmem, hne, hzero, hkeep⟩
    · exact .inl hnull
    · refine .inr ⟨_, heap', hcall, hroom, fun i hi => hzero _ (by omega) (by omega), ?_⟩
      intro a ha
      obtain ⟨d, hd, hda, hptr, hpos, hlen⟩ := hholds.block ha
      have hd' : d ∈ bs' := (hmem d hda).mpr (.inr hd)
      have hb' : b ∈ bs' := (hmem b halloc).mpr (.inl rfl)
      have hdb : d ≠ b := fun heq => hne d hd hda (congrArg Block.addr heq)
      have hapart := hinv'.blocks_apart hb' hd' hdb
      refine ⟨?_, fun i hi => ?_⟩
      · rw [hptr]
        omega
      · rw [hptr]
        refine hkeep _ (hinv'.data_outside hd' (lt_of_lt_of_le hi hlen)) ?_
        omega
  · obtain ⟨b, hb, halloc, hptr, hpos, hlen⟩ := hholds.block ha
    obtain ⟨heap', bs', fl', hfree, hinv', hkeep, hmem⟩ :=
      h.bufferAllocFree hb halloc (lt_of_lt_of_le hpos hlen)
    refine ⟨heap', by rw [hptr]; exact hfree, fun a' ha' _ i hi => ?_⟩
    obtain ⟨d, hd, -, hdptr, -, hdlen⟩ := hholds.block ha'
    rw [hdptr]
    exact hkeep.memory _ (h.data_outside hd (lt_of_lt_of_le hi hdlen))

theorem Holds.disjoint (hholds : Holds live bs) (h : HeapInv heap bs fl) :
    live.Pairwise fun a a' => a.ptr + a.len ≤ a'.ptr ∨ a'.ptr + a'.len ≤ a.ptr := by
  have hne : live.Pairwise fun a a' => a.ptr ≠ a'.ptr := List.pairwise_map.mp hholds.nodup
  refine hne.imp_of_mem fun {a a'} ha ha' hptr => ?_
  obtain ⟨b, hb, -, hbptr, -, hblen⟩ := hholds.block ha
  obtain ⟨d, hd, -, hdptr, -, hdlen⟩ := hholds.block ha'
  have hdb : d ≠ b := by
    rintro rfl
    exact hptr (hbptr.trans hdptr.symm)
  rcases h.blocks_apart hb hd hdb with hle | hle <;> omega

theorem HeapInv.released {buf e : Nat} (h : HeapInv heap bs fl) (htiles : Tiles buf bs e)
    (hall : ∀ b ∈ bs, b.alloc = false) :
    bs = [{ addr := buf, size := e - buf - sizeofMemoryHeader, alloc := false }] := by
  obtain ⟨b, bs, rfl⟩ := List.exists_cons_of_ne_nil h.nonempty
  have hb := hall b List.mem_cons_self
  obtain rfl : bs = [] := by
    rcases bs with _ | ⟨c, bs⟩
    · rfl
    · have hc := hall c (List.mem_cons_of_mem _ List.mem_cons_self)
      have hpair := (List.isChain_cons_cons.mp h.apart).1
      rw [hb, hc] at hpair
      rcases hpair with hpair | hpair <;> cases hpair
  obtain ⟨haddr, hend⟩ := htiles
  have hend : buf + sizeofMemoryHeader + b.size = e := hend
  have hsize : b.size = e - buf - sizeofMemoryHeader := by omega
  rw [← haddr] at hsize ⊢
  rw [← hsize, ← hb]

/-- In every run from the initialisation on, the heap is sound, and so is each call. A request is
refused only where no free block has room for its length, rounded up to the alignment. -/
theorem memory_buffer_alloc_sound (memory : Nat → UInt8) (buf len : Nat)
    (hlen : sizeofMemoryHeader + memoryAlignMultiple ≤ len) (hbound : buf + len ≤ 2 ^ 64)
    (heap : Heap) (live : List Allocation)
    (hrun : Relation.ReflTransGen HeapStep (mbedtlsMemoryBufferAllocInit memory buf len, [])
      (heap, live)) :
    ∃ bs fl, SoundHeap buf len heap live bs fl ∧ SoundCalls heap live bs := by
  have hinit := heapInv_init memory hlen hbound
  have hstart : HeapState ((mbedtlsMemoryBufferAllocInit memory buf len).buf,
      (mbedtlsMemoryBufferAllocInit memory buf len).len)
      (mbedtlsMemoryBufferAllocInit memory buf len, []) := by
    refine ⟨rfl, _, _, hinit, List.nodup_nil, nofun, ?_⟩
    intro b hb halloc
    rw [List.mem_singleton] at hb
    rw [hb] at halloc
    cases halloc
  obtain ⟨hregion, bs, fl, hinv, hholds⟩ := heapState_run hstart hrun
  obtain ⟨start, hbuf, htiles, -⟩ := hinit.tiles
  obtain ⟨start', hbuf', htiles', -⟩ := hinv.tiles
  obtain ⟨hbufEq, hlenEq⟩ := Prod.mk.inj hregion
  obtain rfl : start' = start := by
    rw [hbuf, hbuf'] at hbufEq
    exact Option.some.inj hbufEq
  obtain ⟨hstartEq, hendEq⟩ := htiles
  have hstartEq : alignedBuf buf = start' := hstartEq
  have hendEq : start' + sizeofMemoryHeader + (wholeBlock buf len).size =
      start' + (mbedtlsMemoryBufferAllocInit memory buf len).len := hendEq
  have hend : start' + heap.len = buf + len := by
    have hfits := (alignedBuf_le buf hlen).2
    have hsize : (wholeBlock buf len).size = buf + len - alignedBuf buf - sizeofMemoryHeader := rfl
    rw [hlenEq, ← hendEq, ← hstartEq, hsize]
    omega
  rw [hend, ← hstartEq] at htiles'
  refine ⟨bs, fl, ⟨hinv, htiles', hinv.chain.inverse, hinv.free.inverse, hinv.verifyChain_eq, ?_,
    hholds.disjoint hinv, ?_⟩, soundCalls hinv hholds⟩
  · intro a ha
    obtain ⟨b, hb, halloc, hptr, -, hle⟩ := hholds.block ha
    exact ⟨b, hb, halloc, hptr, hle⟩
  · intro hlive
    have hlive : live = [] := hlive
    refine hinv.released htiles' fun b hb => ?_
    by_contra hne
    obtain ⟨a, ha, -⟩ := hholds.all b hb (Bool.eq_true_of_not_eq_false hne)
    rw [show (heap, live).2 = [] from hlive] at ha
    cases ha

/-- A heap of 4096 bytes, of which 100 are taken. -/
theorem memory_buffer_alloc_sound_first :
    let heap :=
      ((mbedtlsMemoryBufferAllocInit (fun _ => 0) 4096 4096).allocBlock 4096 100).memset 4160 100
    ∃ bs fl, SoundHeap 4096 4096 heap [{ ptr := 4160, len := 100 }] bs fl ∧
      SoundCalls heap [{ ptr := 4160, len := 100 }] bs :=
  memory_buffer_alloc_sound (fun _ => 0) 4096 4096 (by decide) (by decide) _ _
    (.single (@HeapStep.calloc _ _ _ 1 100 _ rfl))

/-- A block of 10 bytes is free, but a request for 9 bytes is refused. -/
theorem memory_buffer_alloc_rounds :
    let heap := mbedtlsMemoryBufferAllocInit (fun _ => 0) 4096 74
    heap.firstFree = some 4096 ∧ (heap.headers 4096).alloc = 0 ∧ 1 * 9 ≤ (heap.headers 4096).size ∧
      (bufferAllocCalloc heap 1 9).map Prod.fst = some none := by
  decide

end TfPsaCrypto.Platform
