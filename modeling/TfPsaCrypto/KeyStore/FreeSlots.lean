import TfPsaCrypto.KeyStore.Slots
import TfPsaCrypto.Library.FreeList
import TfPsaCrypto.Library.Machine

/-!
# Free slots of the dynamic key store

The free list of a volatile slice holds the empty slots of the slice, each once. Allocation takes
the first of them and wiping puts a slot back in front.
-/

namespace TfPsaCrypto.KeyStore

open FreeList

variable {cfg : Config} {g : PsaGlobalData}

/-! ## The encoding of the next free slot -/

variable {slot : PsaKeySlot}

@[simp] theorem nextFree_zero {idx : Nat} (h : idx < 2 ^ 25) :
    nextFree cfg .zero idx = idx + 1 := by
  have hrel : PsaKeySlot.zero.nextFreeRelativeToNext = 0 := by
    have hvar : PsaKeySlot.zero.var = 0 := rfl
    unfold PsaKeySlot.nextFreeRelativeToNext
    rw [Int.bmod_def, hvar]
    split <;> omega
  unfold nextFree
  rw [hrel]
  rcases cfg.sizeMod_eq with hsize | hsize
  · rw [hsize]
    omega
  · rw [hsize]
    omega

theorem nextFree_setNextFree {idx next : Nat} (hvar : slot.var < 2 ^ 32) (hidx : idx < 2 ^ 25)
    (hnext : next ≤ 2 ^ 25) :
    nextFree cfg (slot.setNextFreeRelativeToNext ((next : Int) - idx - 1)) idx = next := by
  have hrel : (slot.setNextFreeRelativeToNext ((next : Int) - idx - 1)).nextFreeRelativeToNext =
      (next : Int) - idx - 1 := by
    unfold PsaKeySlot.nextFreeRelativeToNext PsaKeySlot.setNextFreeRelativeToNext
    rw [Int.bmod_def]
    simp only
    split <;> omega
  unfold nextFree
  rw [hrel]
  rcases cfg.sizeMod_eq with hsize | hsize
  · rw [hsize]
    omega
  · rw [hsize]
    omega

/-! ## The invariant -/

variable {i : Nat}

structure FreeListOk (cfg : Config) (g : PsaGlobalData) (i : Nat) : Prop where
  chain : ∃ l, Chain (fun idx => nextFree cfg (g.keySlots ⟨i, idx⟩) idx)
      (cfg.volatileSliceLength i) (g.firstFreeSlotIndex i) l ∧
    ∀ idx, idx ∈ l ↔ idx < cfg.volatileSliceLength i ∧ (g.keySlots ⟨i, idx⟩).state = .empty
  first : g.firstFreeSlotIndex i = cfg.freeSlotIndexNone ∨
    g.firstFreeSlotIndex i < cfg.volatileSliceLength i

theorem keySliceLength_of_lt (hdyn : cfg.dynamic = true) (hi : i < keySlotVolatileSliceCount) :
    cfg.keySliceLength i = cfg.volatileSliceLength i := by
  unfold Config.keySliceLength Config.cacheSlice
  rw [hdyn, if_pos rfl, if_neg (Nat.ne_of_lt hi)]

theorem length_lt_none (hi : i < keySlotVolatileSliceCount) :
    cfg.volatileSliceLength i < cfg.freeSlotIndexNone := by
  have hsize := cfg.sizeMod_eq
  have hle := cfg.length_le i hi
  unfold Config.freeSlotIndexNone
  omega

theorem FreeListOk.none_iff (h : FreeListOk cfg g i) (hi : i < keySlotVolatileSliceCount) :
    g.firstFreeSlotIndex i = cfg.freeSlotIndexNone ↔
      ∀ idx < cfg.volatileSliceLength i, (g.keySlots ⟨i, idx⟩).state ≠ .empty := by
  obtain ⟨l, hchain, hmem⟩ := h.chain
  constructor
  · intro hnone idx hidx hempty
    have hin := (hmem idx).mpr ⟨hidx, hempty⟩
    rw [hnone] at hchain
    cases hchain with
    | nil _ => exact absurd hin List.not_mem_nil
    | cons hlt _ => exact absurd hlt (Nat.not_lt.mpr (length_lt_none hi).le)
  · intro hfull
    rcases h.first with hnone | hlt
    · exact hnone
    cases hchain with
    | nil hle => exact absurd hlt (Nat.not_lt.mpr hle)
    | cons _ _ =>
      have hempty := (hmem _).mp List.mem_cons_self
      exact absurd hempty.2 (hfull _ hempty.1)

theorem FreeListOk.congr {g' : PsaGlobalData} {i : Nat} (h : FreeListOk cfg g i)
    (hfirst : g'.firstFreeSlotIndex i = g.firstFreeSlotIndex i)
    (hstate : ∀ idx, (g'.keySlots ⟨i, idx⟩).state = .empty ↔ (g.keySlots ⟨i, idx⟩).state = .empty)
    (hvar : ∀ idx, (g.keySlots ⟨i, idx⟩).state = .empty →
      (g'.keySlots ⟨i, idx⟩).var = (g.keySlots ⟨i, idx⟩).var) : FreeListOk cfg g' i := by
  obtain ⟨l, hchain, hmem⟩ := h.chain
  constructor
  · refine ⟨l, ?_, ?_⟩
    · rw [hfirst]
      apply hchain.congr
      intro idx hidx
      unfold nextFree PsaKeySlot.nextFreeRelativeToNext
      rw [hvar idx ((hmem idx).mp hidx).2]
    · intro idx
      rw [hmem, hstate]
  · rw [hfirst]
    exact h.first

structure VolatileOk (cfg : Config) (g : PsaGlobalData) : Prop where
  lists : ∀ i < keySlotVolatileSliceCount, FreeListOk cfg g i
  used : ∀ p : SlotPtr, p.slice < keySlotVolatileSliceCount →
    (g.keySlots p).state ≠ .empty →
    p.index < cfg.volatileSliceLength p.slice ∧ (g.keySlots p).sliceIndex = p.slice ∧
      g.keySlices p.slice = true
  free : ∀ p : SlotPtr, p.slice < keySlotVolatileSliceCount →
    (g.keySlots p).state = .empty → (g.keySlots p).var < 2 ^ 32

theorem VolatileOk.congr {g' : PsaGlobalData} (h : VolatileOk cfg g)
    (hfirst : g'.firstFreeSlotIndex = g.firstFreeSlotIndex) (halloc : g'.keySlices = g.keySlices)
    (hslots : ∀ q : SlotPtr, q.slice < keySlotVolatileSliceCount →
      g'.keySlots q = g.keySlots q) : VolatileOk cfg g' := by
  constructor
  · intro i hi
    have hsame : ∀ idx, g'.keySlots ⟨i, idx⟩ = g.keySlots ⟨i, idx⟩ := fun idx => hslots _ hi
    apply (h.lists i hi).congr (congrFun hfirst i)
    · intro idx
      rw [hsame]
    · intro idx _
      rw [hsame]
  · intro q hq
    rw [hslots q hq, halloc]
    exact h.used q hq
  · intro q hq
    rw [hslots q hq]
    exact h.free q hq

/-! ## Allocation and wiping -/

variable {p : SlotPtr}

def PsaGlobalData.allocated (g : PsaGlobalData) (cfg : Config) (p : SlotPtr) : PsaGlobalData :=
  let next := nextFree cfg (g.keySlots p) p.index
  { g with
    keySlices := Function.update g.keySlices p.slice true
    firstFreeSlotIndex := Function.update g.firstFreeSlotIndex p.slice
      (if next ≥ cfg.volatileSliceLength p.slice then cfg.freeSlotIndexNone else next)
    keySlots := Function.update g.keySlots p
      { g.keySlots p with state := .filling, sliceIndex := p.slice, var := 0 } }

theorem psaAllocateVolatileKeySlot_cases (hdyn : cfg.dynamic = true) (h : VolatileOk cfg g)
    (calloc : Bool) :
    (∃ p : SlotPtr, p.slice < keySlotVolatileSliceCount ∧
        p.index < cfg.volatileSliceLength p.slice ∧ (g.keySlots p).state = .empty ∧
        g.firstFreeSlotIndex p.slice = p.index ∧
        psaAllocateVolatileKeySlot cfg calloc g =
          (g.allocated cfg p).returns .success (some p) (volatileKeyIdOfIndex p.slice p.index)) ∨
      (psaAllocateVolatileKeySlot cfg calloc g = g.returns .errorInsufficientMemory none 0 ∧
        (calloc = true → ∀ p : SlotPtr, p.slice < keySlotVolatileSliceCount →
          p.index < cfg.volatileSliceLength p.slice → (g.keySlots p).state ≠ .empty)) := by
  unfold psaAllocateVolatileKeySlot
  simp only
  split
  · next hnone =>
    right
    refine ⟨rfl, ?_⟩
    rintro _ ⟨i, idx⟩ hi hidx
    rw [List.find?_eq_none] at hnone
    have hfirst := hnone i (List.mem_range.mpr hi)
    rw [decide_eq_true_eq, not_not] at hfirst
    exact ((h.lists i hi).none_iff hi).mp hfirst idx hidx
  · next i hsome =>
    have hi : i < keySlotVolatileSliceCount := List.mem_range.mp (List.mem_of_find?_eq_some hsome)
    have hne := List.find?_some hsome
    rw [decide_eq_true_eq] at hne
    split
    · next hmemory =>
      right
      refine ⟨rfl, ?_⟩
      intro hcalloc
      rw [hcalloc] at hmemory
      exact absurd hmemory.2 (by simp)
    · left
      have hlt := (h.lists i hi).first.resolve_left hne
      obtain ⟨l, hchain, hmem⟩ := (h.lists i hi).chain
      have hempty : (g.keySlots ⟨i, g.firstFreeSlotIndex i⟩).state = .empty := by
        cases hchain with
        | nil hle => exact absurd hlt (Nat.not_lt.mpr hle)
        | cons _ _ => exact ((hmem _).mp List.mem_cons_self).2
      have hvar := h.free ⟨i, g.firstFreeSlotIndex i⟩ hi hempty
      have hword : (g.keySlots ⟨i, g.firstFreeSlotIndex i⟩).var / 2 ^ 32 * 2 ^ 32 +
          ((0 : Int) % 2 ^ 32).toNat = 0 := by omega
      refine ⟨⟨i, g.firstFreeSlotIndex i⟩, hi, hlt, hempty, rfl, ?_⟩
      rw [keySliceLength_of_lt hdyn hi]
      unfold psaKeySlotStateTransition PsaKeySlot.setNextFreeRelativeToNext
      simp only [hempty, hword]
      rfl

theorem VolatileOk.allocated (h : VolatileOk cfg g) (hslice : p.slice < keySlotVolatileSliceCount)
    (hindex : p.index < cfg.volatileSliceLength p.slice)
    (hfirst : g.firstFreeSlotIndex p.slice = p.index) : VolatileOk cfg (g.allocated cfg p) := by
  have hother : ∀ q ≠ p, (g.allocated cfg p).keySlots q = g.keySlots q := by
    intro q hq
    exact Function.update_of_ne hq _ _
  have hself : (g.allocated cfg p).keySlots p =
      { g.keySlots p with state := .filling, sliceIndex := p.slice, var := 0 } :=
    Function.update_self _ _ _
  have hne : ∀ {i idx : Nat}, (SlotPtr.mk i idx ≠ p) ↔ ¬ (i = p.slice ∧ idx = p.index) := by
    intro i idx
    rw [ne_eq, SlotPtr.mk.injEq]
  constructor
  · intro i hi
    by_cases heq : i = p.slice
    · subst heq
      obtain ⟨l, hchain, hmem⟩ := (h.lists p.slice hi).chain
      rw [hfirst] at hchain
      have hsame : ∀ idx ≠ p.index,
          nextFree cfg ((g.allocated cfg p).keySlots ⟨p.slice, idx⟩) idx =
            nextFree cfg (g.keySlots ⟨p.slice, idx⟩) idx := by
        intro idx hidx
        rw [hother _ (hne.mpr fun heq => hidx heq.2)]
      obtain ⟨l', rfl, hnot, htail⟩ := hchain.pop hindex hsame
      have hfree : (g.allocated cfg p).firstFreeSlotIndex p.slice =
          if nextFree cfg (g.keySlots p) p.index ≥ cfg.volatileSliceLength p.slice then
            cfg.freeSlotIndexNone
          else nextFree cfg (g.keySlots p) p.index := Function.update_self _ _ _
      constructor
      · refine ⟨l', ?_, ?_⟩
        · rw [hfree]
          split
          · next hge => exact htail.of_le hge (length_lt_none hi).le
          · exact htail
        · intro idx
          by_cases hidx : idx = p.index
          · subst hidx
            rw [hself]
            constructor
            · intro hin
              exact absurd hin hnot
            · rintro ⟨_, hstate⟩
              exact absurd hstate (by simp)
          · rw [hother _ (hne.mpr fun heq => hidx heq.2), ← hmem, List.mem_cons]
            exact ⟨.inr, fun hin => hin.resolve_left hidx⟩
      · rw [hfree]
        split
        · exact .inl rfl
        · next hlt => exact .inr (Nat.not_le.mp hlt)
    · apply (h.lists i hi).congr
      · exact Function.update_of_ne heq _ _
      · intro idx
        rw [hother _ (hne.mpr fun heq' => heq heq'.1)]
      · intro idx _
        rw [hother _ (hne.mpr fun heq' => heq heq'.1)]
  · intro q hq hstate
    by_cases heq : q = p
    · subst heq
      rw [hself]
      exact ⟨hindex, rfl, Function.update_self _ _ _⟩
    rw [hother q heq] at hstate ⊢
    obtain ⟨hlt, hidx, halloc⟩ := h.used q hq hstate
    refine ⟨hlt, hidx, ?_⟩
    by_cases hsl : q.slice = p.slice
    · rw [hsl]
      exact Function.update_self _ _ _
    · exact (Function.update_of_ne hsl _ _).trans halloc
  · intro q hq hstate
    by_cases heq : q = p
    · subst heq
      rw [hself] at hstate
      exact absurd hstate (by simp)
    · rw [hother q heq] at hstate ⊢
      exact h.free q hq hstate

/-- The callers of `psa_wipe_key_slot` are the last readers, or fill the slot. -/
def WipeReady (slot : PsaKeySlot) : Prop :=
  ((slot.state = .full ∨ slot.state = .pendingDeletion) ∧ slot.registeredReaders = 1) ∨
    (slot.state = .filling ∧ slot.registeredReaders = 0)

instance (slot : PsaKeySlot) : Decidable (WipeReady slot) := inferInstanceAs (Decidable (_ ∨ _))

def PsaGlobalData.freed (g : PsaGlobalData) (cfg : Config) (p : SlotPtr) : PsaGlobalData :=
  let next := g.firstFreeSlotIndex p.slice
  { g with
    firstFreeSlotIndex := Function.update g.firstFreeSlotIndex p.slice p.index
    keySlots := Function.update g.keySlots p
      (PsaKeySlot.zero.setNextFreeRelativeToNext
        (((if next ≥ cfg.volatileSliceLength p.slice then cfg.volatileSliceLength p.slice
          else next : Nat) : Int) - p.index - 1))
    wiped := g.wiped ++ [{ slot := p, status := .success }] }

theorem psaWipeKeySlot_volatile (hdyn : cfg.dynamic = true) (h : VolatileOk cfg g)
    (hslice : p.slice < keySlotVolatileSliceCount) (hready : WipeReady (g.keySlots p)) :
    psaWipeKeySlot cfg g p = (.success, g.freed cfg p) := by
  have hstate : (g.keySlots p).state ≠ .empty := by
    rcases hready with ⟨hs | hs, _⟩ | ⟨hs, _⟩ <;> rw [hs] <;> simp
  obtain ⟨hindex, hsliceIndex, _⟩ := h.used p hslice hstate
  have hcache : p.slice ≠ cfg.cacheSlice := by
    unfold Config.cacheSlice
    rw [hdyn, if_pos rfl]
    exact Nat.ne_of_lt hslice
  have hlen := keySliceLength_of_lt hdyn hslice
  have hfree : psaFreeKeySlot cfg (g.setSlot p .zero) p.slice p =
      (.success, { g with
        firstFreeSlotIndex := Function.update g.firstFreeSlotIndex p.slice p.index
        keySlots := (g.freed cfg p).keySlots }) := by
    unfold psaFreeKeySlot
    rw [if_neg hcache, if_neg (Nat.not_le.mpr hslice),
      if_neg (not_not.mpr ⟨rfl, by rw [hlen]; exact hindex⟩), hlen]
    unfold PsaGlobalData.setSlot PsaGlobalData.freed
    simp only [Function.update_self, Function.update_idem]
  unfold psaWipeKeySlot
  rcases hready with ⟨hs, hreaders⟩ | ⟨hs, hreaders⟩
  · rcases hs with hs | hs
    · simp only [hs, hreaders, hdyn, hsliceIndex, hfree]
      rfl
    · simp only [hs, hreaders, hdyn, hsliceIndex, hfree]
      rfl
  · simp only [hs, hreaders, hdyn, hsliceIndex, hfree]
    rfl

theorem VolatileOk.freed (h : VolatileOk cfg g) (hslice : p.slice < keySlotVolatileSliceCount)
    (hstate : (g.keySlots p).state ≠ .empty) :
    VolatileOk cfg (g.freed cfg p) := by
  have hindex := (h.used p hslice hstate).1
  have hle := cfg.length_le p.slice hslice
  have hother : ∀ q ≠ p, (g.freed cfg p).keySlots q = g.keySlots q := by
    intro q hq
    exact Function.update_of_ne hq _ _
  obtain ⟨next, hnextle, hself⟩ : ∃ next ≤ cfg.volatileSliceLength p.slice,
      (g.freed cfg p).keySlots p =
        PsaKeySlot.zero.setNextFreeRelativeToNext ((next : Int) - p.index - 1) ∧
      (next = g.firstFreeSlotIndex p.slice ∨
        cfg.volatileSliceLength p.slice ≤ g.firstFreeSlotIndex p.slice ∧
        cfg.volatileSliceLength p.slice ≤ next) := by
    refine ⟨_, ?_, Function.update_self _ _ _, ?_⟩
    · split <;> omega
    · split
      · next hge => exact .inr ⟨hge, Nat.le_refl _⟩
      · exact .inl rfl
  obtain ⟨hself, hnext⟩ := hself
  have hempty : ((g.freed cfg p).keySlots p).state = .empty := by
    rw [hself]
    rfl
  have hne : ∀ {i idx : Nat}, (SlotPtr.mk i idx ≠ p) ↔ ¬ (i = p.slice ∧ idx = p.index) := by
    intro i idx
    rw [ne_eq, SlotPtr.mk.injEq]
  constructor
  · intro i hi
    by_cases heq : i = p.slice
    · subst heq
      obtain ⟨l, hchain, hmem⟩ := (h.lists p.slice hi).chain
      have hnot : p.index ∉ l := by
        intro hin
        exact hstate ((hmem p.index).mp hin).2
      have hstart : Chain (fun idx => nextFree cfg (g.keySlots ⟨p.slice, idx⟩) idx)
          (cfg.volatileSliceLength p.slice) next l := by
        rcases hnext with rfl | ⟨hge, hge'⟩
        · exact hchain
        · exact hchain.of_le hge hge'
      have hfree : (g.freed cfg p).firstFreeSlotIndex p.slice = p.index :=
        Function.update_self _ _ _
      have hsame : ∀ idx ≠ p.index,
          nextFree cfg ((g.freed cfg p).keySlots ⟨p.slice, idx⟩) idx =
            nextFree cfg (g.keySlots ⟨p.slice, idx⟩) idx := by
        intro idx hidx
        rw [hother _ (hne.mpr fun heq => hidx heq.2)]
      have hread : nextFree cfg ((g.freed cfg p).keySlots ⟨p.slice, p.index⟩) p.index = next := by
        have hptr : (SlotPtr.mk p.slice p.index) = p := rfl
        rw [hptr, hself]
        exact nextFree_setNextFree (by decide) (by omega) (by omega)
      constructor
      · refine ⟨p.index :: l, ?_, ?_⟩
        · rw [hfree]
          exact hstart.push hindex hnot hread hsame
        intro idx
        rw [List.mem_cons]
        by_cases hidx : idx = p.index
        · subst hidx
          exact ⟨fun _ => ⟨hindex, hempty⟩, fun _ => .inl rfl⟩
        · rw [hother _ (hne.mpr fun heq => hidx heq.2), ← hmem]
          exact ⟨fun hin => hin.resolve_left hidx, .inr⟩
      · rw [hfree]
        exact .inr hindex
    · apply (h.lists i hi).congr
      · exact Function.update_of_ne heq _ _
      · intro idx
        rw [hother _ (hne.mpr fun heq' => heq heq'.1)]
      · intro idx _
        rw [hother _ (hne.mpr fun heq' => heq heq'.1)]
  · intro q hq hused
    by_cases heq : q = p
    · subst heq
      exact absurd hempty hused
    · rw [hother q heq] at hused ⊢
      exact h.used q hq hused
  · intro q hq hfree
    by_cases heq : q = p
    · subst heq
      rw [hself]
      unfold PsaKeySlot.setNextFreeRelativeToNext PsaKeySlot.zero
      simp only
      omega
    · rw [hother q heq] at hfree ⊢
      exact h.free q hq hfree

theorem VolatileOk.setSlot (h : VolatileOk cfg g) (hstate : (g.keySlots p).state ≠ .empty)
    (hslot : slot.state ≠ .empty) (hslice : slot.sliceIndex = (g.keySlots p).sliceIndex) :
    VolatileOk cfg (g.setSlot p slot) := by
  have hother : ∀ q ≠ p, (g.setSlot p slot).keySlots q = g.keySlots q := by
    intro q hq
    exact Function.update_of_ne hq _ _
  have hself : (g.setSlot p slot).keySlots p = slot := Function.update_self _ _ _
  constructor
  · intro i hi
    have hfirst : (g.setSlot p slot).firstFreeSlotIndex i = g.firstFreeSlotIndex i := rfl
    apply (h.lists i hi).congr hfirst
    · intro idx
      by_cases heq : SlotPtr.mk i idx = p
      · rw [heq, hself]
        exact ⟨fun he => absurd he hslot, fun he => absurd he hstate⟩
      · rw [hother _ heq]
    · intro idx hempty
      rw [hother]
      rintro rfl
      exact hstate hempty
  · intro q hq hused
    by_cases heq : q = p
    · subst heq
      rw [hself, hslice]
      exact h.used q hq hstate
    · rw [hother q heq] at hused ⊢
      exact h.used q hq hused
  · intro q hq hempty
    by_cases heq : q = p
    · subst heq
      rw [hself] at hempty
      exact absurd hempty hslot
    · rw [hother q heq] at hempty ⊢
      exact h.free q hq hempty

/-! ## Runs -/

/-- The calls on the volatile slices; between them, a slot that was handed out is written by its
users. -/
inductive SlotAction where
  | allocate (calloc : Bool)
  | write (p : SlotPtr) (slot : PsaKeySlot)
  | wipe (p : SlotPtr)

/-- The dynamic key store: only slots in use are written and wiped, by their last users; nobody
writes the slice index of a slot, or that it is empty. -/
def slotMachine (cfg : Config) :
    Machine.StepFn PsaGlobalData SlotAction (PsaStatus × Option SlotPtr)
  | g, .allocate calloc =>
    let r := psaAllocateVolatileKeySlot cfg calloc g
    some (r.g, r.status, r.slot)
  | g, .write p slot =>
    if p.slice < keySlotVolatileSliceCount ∧ (g.keySlots p).state ≠ .empty ∧
        slot.state ≠ .empty ∧ slot.sliceIndex = (g.keySlots p).sliceIndex then
      some (g.setSlot p slot, .success, some p)
    else none
  | g, .wipe p =>
    if p.slice < keySlotVolatileSliceCount ∧ WipeReady (g.keySlots p) then
      let r := psaWipeKeySlot cfg g p
      some (r.2, r.1, some p)
    else none

def PsaGlobalData.init (cfg : Config) : PsaGlobalData :=
  { keySlices := fun sliceIdx => sliceIdx = cfg.cacheSlice
    keySlots := fun _ => .zero
    firstFreeSlotIndex := fun _ => 0
    keySlotsInitialized := true
    wiped := [] }

theorem volatileOk_init (cfg : Config) : VolatileOk cfg (.init cfg) := by
  constructor
  · intro i hi
    have hone := cfg.one_le_length i hi
    have hle := cfg.length_le i hi
    constructor
    · refine ⟨List.range' 0 (cfg.volatileSliceLength i - 0), ?_, ?_⟩
      · apply Chain.all _ (Nat.zero_le _)
        intro idx hidx
        exact nextFree_zero (by omega)
      intro idx
      rw [List.mem_range'_1]
      constructor
      · rintro ⟨_, hlt⟩
        exact ⟨by omega, rfl⟩
      · rintro ⟨hlt, _⟩
        omega
    · exact .inr hone
  · intro p _ hstate
    exact absurd rfl hstate
  · intro p _ _
    exact Nat.two_pow_pos 32

theorem WipeReady.ne_empty (h : WipeReady slot) : slot.state ≠ .empty := by
  rcases h with ⟨hs | hs, _⟩ | ⟨hs, _⟩ <;> rw [hs] <;> simp

theorem VolatileOk.step (hdyn : cfg.dynamic = true) {a : SlotAction} {g' : PsaGlobalData}
    {o : PsaStatus × Option SlotPtr} (h : VolatileOk cfg g)
    (hstep : slotMachine cfg g a = some (g', o)) : VolatileOk cfg g' := by
  cases a with
  | allocate calloc =>
    obtain ⟨rfl, _⟩ := hstep
    rcases psaAllocateVolatileKeySlot_cases hdyn h calloc with
      ⟨p, hslice, hindex, _, hfirst, heq⟩ | ⟨heq, _⟩
    · rw [heq]
      exact h.allocated hslice hindex hfirst
    · rw [heq]
      exact h
  | write p slot =>
    simp only [slotMachine] at hstep
    split at hstep
    · next hused =>
      cases hstep
      exact h.setSlot hused.2.1 hused.2.2.1 hused.2.2.2
    · exact absurd hstep (by simp)
  | wipe p =>
    simp only [slotMachine] at hstep
    split at hstep
    · next hready =>
      rw [psaWipeKeySlot_volatile hdyn h hready.1 hready.2] at hstep
      cases hstep
      exact h.freed hready.1 hready.2.ne_empty
    · exact absurd hstep (by simp)

theorem VolatileOk.run (hdyn : cfg.dynamic = true)
    {tr : List (SlotAction × PsaStatus × Option SlotPtr)}
    (hrun : Machine.Run (slotMachine cfg) (.init cfg) tr g) : VolatileOk cfg g :=
  hrun.state_invariant (volatileOk_init cfg) fun _ _ _ _ h hstep => h.step hdyn hstep

/-- In every state of the dynamic key store, the free list of a slice goes once through its empty
slots and no other, and is marked as empty where there is none. What is handed out was empty; where
nothing is, though there is memory, no slot is empty. Wiping never fails. -/
theorem free_lists (cfg : Config) (hdyn : cfg.dynamic = true)
    (tr : List (SlotAction × PsaStatus × Option SlotPtr)) (g : PsaGlobalData)
    (hrun : Machine.Run (slotMachine cfg) (.init cfg) tr g) :
    (∀ i < keySlotVolatileSliceCount,
      (∃ l : List Nat, l.Nodup ∧
        Chain (fun idx => nextFree cfg (g.keySlots ⟨i, idx⟩) idx) (cfg.volatileSliceLength i)
          (g.firstFreeSlotIndex i) l ∧
        ∀ idx, idx ∈ l ↔ idx < cfg.volatileSliceLength i ∧ (g.keySlots ⟨i, idx⟩).state = .empty) ∧
      (g.firstFreeSlotIndex i = cfg.freeSlotIndexNone ↔
        ∀ idx < cfg.volatileSliceLength i, (g.keySlots ⟨i, idx⟩).state ≠ .empty)) ∧
    (∀ calloc : Bool,
      let r := psaAllocateVolatileKeySlot cfg calloc g
      (∃ p : SlotPtr, r.status = .success ∧ r.slot = some p ∧
        p.slice < keySlotVolatileSliceCount ∧ p.index < cfg.volatileSliceLength p.slice ∧
        (g.keySlots p).state = .empty ∧ (r.g.keySlots p).state = .filling) ∨
      (r.status = .errorInsufficientMemory ∧ r.g = g ∧
        (calloc = true → ∀ p : SlotPtr, p.slice < keySlotVolatileSliceCount →
          p.index < cfg.volatileSliceLength p.slice → (g.keySlots p).state ≠ .empty))) ∧
    (∀ p : SlotPtr, p.slice < keySlotVolatileSliceCount → WipeReady (g.keySlots p) →
      (psaWipeKeySlot cfg g p).1 = .success) := by
  have h := VolatileOk.run hdyn hrun
  refine ⟨?_, ?_, ?_⟩
  · intro i hi
    obtain ⟨l, hchain, hmem⟩ := (h.lists i hi).chain
    exact ⟨⟨l, hchain.nodup, hchain, hmem⟩, (h.lists i hi).none_iff hi⟩
  · intro calloc r
    rcases psaAllocateVolatileKeySlot_cases hdyn h calloc with
      ⟨p, hslice, hindex, hempty, _, heq⟩ | ⟨heq, hfull⟩
    · left
      refine ⟨p, ?_, ?_, hslice, hindex, hempty, ?_⟩
      · exact congrArg SlotResult.status heq
      · exact congrArg SlotResult.slot heq
      · have hslots := congrArg (fun r => (r.g.keySlots p).state) heq
        refine hslots.trans ?_
        show (Function.update g.keySlots p _ p).state = _
        rw [Function.update_self]
    · right
      exact ⟨congrArg SlotResult.status heq, congrArg SlotResult.g heq, hfull⟩
  · intro p hslice hready
    rw [psaWipeKeySlot_volatile hdyn h hslice hready]

def Config.small : Config where
  dynamic := true
  slotCount := 4
  volatileSliceLength _ := 2
  sizeMod := 2 ^ 64
  one_le_length _ _ := by decide
  length_le _ _ := by decide
  slotCount_le := by decide
  sizeMod_eq := .inr rfl

theorem free_lists_witness :
    ∃ g : PsaGlobalData,
      (psaAllocateVolatileKeySlot .small true g).slot = some ⟨0, 0⟩ ∧
      (g.firstFreeSlotIndex 0 = Config.small.freeSlotIndexNone ↔
        ∀ idx < Config.small.volatileSliceLength 0, (g.keySlots ⟨0, idx⟩).state ≠ .empty) := by
  have hnil : Machine.Run (slotMachine .small) (.init .small) [] _ := .nil
  have hrun := (((hnil.snoc (a := .allocate true) rfl).snoc (a := .allocate true) rfl).snoc
    (a := .wipe ⟨0, 0⟩) rfl)
  have hlists := free_lists .small rfl _ _ hrun
  exact ⟨_, by decide +kernel, (hlists.1 0 (by decide)).2⟩

end TfPsaCrypto.KeyStore
