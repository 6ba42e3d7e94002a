import TfPsaCrypto.KeyStore.LifeCycle

/-!
# Registered readers

A user of a key registers in its slot: what the slot holds stays until the last user unregisters.
-/

namespace TfPsaCrypto.KeyStore

open Function

/-! ## The invariant -/

variable {cfg : Config} {g : PsaGlobalData} {p : SlotPtr} {slot : PsaKeySlot} {s s' s'' : Store}
  {n : Nat}

structure UsedOk (cfg : Config) (p : SlotPtr) (slot : PsaKeySlot) : Prop where
  slice : p.slice ≤ cfg.cacheSlice
  sliceIndex : cfg.dynamic = true → slot.sliceIndex = p.slice
  id : cfg.psaKeyIdIsVolatile slot.attr.id = true → ∀ g : PsaGlobalData,
    g.keySlices p.slice = true → getVolatileKeySlot cfg g slot.attr.id = some p

/-- What a slot holds: its readers are the registrations, and an empty one is clear, but for the
free list. -/
def SlotOk (cfg : Config) (p : SlotPtr) (held : Nat) (slot : PsaKeySlot) : Prop :=
  match slot.state with
  | .empty => held = 0 ∧ slot.attr.id = 0 ∧ (p.slice < cfg.cacheSlice ∨ slot.var = 0)
  | .filling => held = 0 ∧ slot.var = 0 ∧ UsedOk cfg p slot
  | .full => slot.var = held ∧ UsedOk cfg p slot
  | .pendingDeletion => slot.var = held ∧ 0 < held ∧ UsedOk cfg p slot

structure StoreOk (cfg : Config) (s : Store) : Prop where
  lists : cfg.dynamic = true → VolatileOk cfg s.g
  slot : ∀ p, SlotOk cfg p (s.held p) (s.g.keySlots p)
  wiped : ∀ w ∈ s.g.wiped, w.status = .success

/-- At most the slot `p` changes, and not the key in it while it is registered. -/
structure Kept (cfg : Config) (p : SlotPtr) (s s' : Store) : Prop where
  ok : StoreOk cfg s'
  other : ∀ q ≠ p, s'.g.keySlots q = s.g.keySlots q ∧ s'.held q = s.held q
  key : 0 < s.held p → 0 < s'.held p → (s'.g.keySlots p).attr = (s.g.keySlots p).attr ∧
    (s'.g.keySlots p).key = (s.g.keySlots p).key

/-- No key is created in `p`. -/
structure Quiet (cfg : Config) (p : SlotPtr) (s s' : Store) : Prop extends Kept cfg p s s' where
  full : (s'.g.keySlots p).state = .full → (s.g.keySlots p).state = .full ∧
    (s'.g.keySlots p).attr = (s.g.keySlots p).attr ∧ (s'.g.keySlots p).key = (s.g.keySlots p).key
  filling : (s'.g.keySlots p).state = .filling → (s.g.keySlots p).state = .filling ∧
    (s'.g.keySlots p).attr.id = (s.g.keySlots p).attr.id ∧
    (s'.g.keySlots p).attr.lifetime = (s.g.keySlots p).attr.lifetime

theorem Kept.trans (h : Kept cfg p s s') (h' : Kept cfg p s' s'')
    (hp : s.held p = 0 ∨ 0 < s'.held p) : Kept cfg p s s'' := by
  refine ⟨h'.ok, fun q hq => ?_, fun hheld hpos => ?_⟩
  · rw [(h'.other q hq).1, (h'.other q hq).2]
    exact h.other q hq
  · have hmid : 0 < s'.held p := hp.resolve_left (by omega)
    rw [(h'.key hmid hpos).1, (h'.key hmid hpos).2]
    exact h.key hheld hmid

theorem Quiet.trans (h : Quiet cfg p s s') (h' : Quiet cfg p s' s'')
    (hp : s.held p = 0 ∨ 0 < s'.held p) : Quiet cfg p s s'' := by
  refine ⟨h.toKept.trans h'.toKept hp, fun hfull => ?_, fun hfilling => ?_⟩
  · obtain ⟨hmid, hattr, hkey⟩ := h'.full hfull
    rw [hattr, hkey]
    exact h.full hmid
  · obtain ⟨hmid, hid, hlifetime⟩ := h'.filling hfilling
    rw [hid, hlifetime]
    exact h.filling hmid

theorem Kept.quiet (h : Kept cfg p s s') (hfull : (s'.g.keySlots p).state ≠ .full)
    (hfilling : (s'.g.keySlots p).state ≠ .filling) : Quiet cfg p s s' :=
  ⟨h, fun hs => absurd hs hfull, fun hs => absurd hs hfilling⟩

theorem StoreOk.change {g' : PsaGlobalData} (h : StoreOk cfg s)
    (hother : ∀ q ≠ p, g'.keySlots q = s.g.keySlots q)
    (hlists : cfg.dynamic = true → VolatileOk cfg g') (hp : SlotOk cfg p n (g'.keySlots p))
    (hwiped : ∀ w ∈ g'.wiped, w ∈ s.g.wiped ∨ w.status = .success)
    (hkey : 0 < s.held p → 0 < n → (g'.keySlots p).attr = (s.g.keySlots p).attr ∧
      (g'.keySlots p).key = (s.g.keySlots p).key) :
    Kept cfg p s ⟨g', update s.held p n⟩ := by
  refine ⟨⟨hlists, fun q => ?_, fun w hw => (hwiped w hw).elim (h.wiped w) id⟩,
    fun q hq => ⟨hother q hq, update_of_ne hq _ _⟩,
    fun hheld hn => hkey hheld (hn.trans_eq (update_self _ _ _))⟩
  show SlotOk cfg q (update s.held p n q) (g'.keySlots q)
  by_cases hq : q = p
  · rw [hq, update_self]
    exact hp
  · rw [hother q hq, update_of_ne hq]
    exact h.slot q

/-- A slot in use is written. -/
theorem StoreOk.write (h : StoreOk cfg s) (hp : (s.g.keySlots p).state ≠ .empty)
    (hslot : slot.state ≠ .empty) (hslice : slot.sliceIndex = (s.g.keySlots p).sliceIndex)
    (hok : SlotOk cfg p n slot)
    (hkey : 0 < s.held p → 0 < n → slot.attr = (s.g.keySlots p).attr ∧
      slot.key = (s.g.keySlots p).key) :
    Kept cfg p s ⟨s.g.setSlot p slot, update s.held p n⟩ := by
  have hself : (s.g.setSlot p slot).keySlots p = slot := update_self _ _ _
  exact h.change (fun q hq => update_of_ne hq _ _)
    (fun hdyn => (h.lists hdyn).setSlot hp hslot hslice) (by rwa [hself]) (fun _ => .inl)
    (by rwa [hself])

theorem not_volatile_zero : ¬ cfg.psaKeyIdIsVolatile 0 = true := by
  simp [Config.psaKeyIdIsVolatile, psaKeyIdVolatileMin]

def PsaKeySlot.taken (cfg : Config) (slot : PsaKeySlot) : PsaKeySlot :=
  { slot with
    state := .filling
    sliceIndex := if cfg.dynamic then cfg.cacheSlice else slot.sliceIndex }

theorem StoreOk.take (h : StoreOk cfg s) (hp : (s.g.keySlots p).state = .empty)
    (hcache : p.slice = cfg.cacheSlice) :
    s.held p = 0 ∧ Kept cfg p s ⟨s.g.setSlot p ((s.g.keySlots p).taken cfg), s.held⟩ := by
  have hslot := h.slot p
  rw [SlotOk, hp] at hslot
  obtain ⟨hheld, hid, hvar⟩ := hslot
  have hother : ∀ q ≠ p, (s.g.setSlot p ((s.g.keySlots p).taken cfg)).keySlots q =
      s.g.keySlots q := fun q hq => update_of_ne hq _ _
  have hk : Kept cfg p s ⟨s.g.setSlot p ((s.g.keySlots p).taken cfg), update s.held p 0⟩ := by
    refine h.change hother (fun hdyn => (h.lists hdyn).congr rfl rfl fun q hq => hother q ?_) ?_
      (fun _ => .inl) fun _ hn => absurd hn (by simp)
    · rintro rfl
      unfold Config.cacheSlice at hcache
      rw [hdyn, if_pos rfl] at hcache
      omega
    · rw [show (s.g.setSlot p _).keySlots p = _ from update_self _ _ _]
      refine ⟨rfl, hvar.resolve_left (by omega), hcache.le, fun hdyn => ?_, fun hv => ?_⟩
      · simp [PsaKeySlot.taken, hdyn, hcache]
      · exact absurd (hid ▸ hv) not_volatile_zero
  rw [← hheld, update_eq_self] at hk
  exact ⟨hheld, hk⟩

/-! ## The functions on one slot -/

theorem StoreOk.held_eq (h : StoreOk cfg s)
    (hp : (s.g.keySlots p).state = .full ∨ (s.g.keySlots p).state = .pendingDeletion) :
    (s.g.keySlots p).var = s.held p := by
  have hslot := h.slot p
  unfold SlotOk at hslot
  rcases hp with hp | hp <;> rw [hp] at hslot <;> exact hslot.1

theorem StoreOk.locked (h : StoreOk cfg s) (hp : 0 < s.held p) :
    (s.g.keySlots p).state = .full ∨ (s.g.keySlots p).state = .pendingDeletion := by
  have hslot := h.slot p
  unfold SlotOk at hslot
  split at hslot
  · omega
  · omega
  · next hs => exact .inl hs
  · next hs => exact .inr hs

theorem StoreOk.used (h : StoreOk cfg s) (hp : (s.g.keySlots p).state ≠ .empty) :
    UsedOk cfg p (s.g.keySlots p) := by
  have hslot := h.slot p
  unfold SlotOk at hslot
  split at hslot
  · contradiction
  · exact hslot.2.2
  · exact hslot.2
  · exact hslot.2.2

theorem cacheSlice_cases (cfg : Config) (p : SlotPtr) :
    (cfg.dynamic = true ∧ p.slice < keySlotVolatileSliceCount ∧ p.slice < cfg.cacheSlice) ∨
      (cfg.cacheSlice ≤ p.slice ∧ (cfg.dynamic = true → keySlotVolatileSliceCount ≤ p.slice)) := by
  unfold Config.cacheSlice
  split
  · next hdyn => rcases Nat.lt_or_ge p.slice keySlotVolatileSliceCount with hlt | hge <;> simp [*]
  · next hdyn => simp [hdyn]

theorem StoreOk.wipe (h : StoreOk cfg s) (hready : WipeReady (s.g.keySlots p)) :
    ∃ g', psaWipeKeySlot cfg s.g p = (.success, g') ∧ (g'.keySlots p).state = .empty ∧
      Quiet cfg p s ⟨g', update s.held p 0⟩ := by
  have hne := hready.ne_empty
  have hkey : ∀ {P : Prop}, 0 < s.held p → 0 < 0 → P := fun _ hn => absurd hn (by simp)
  rcases cacheSlice_cases cfg p with ⟨hdyn, hslice, hcache⟩ | ⟨hcache, hslice⟩
  · have hself : ((s.g.freed cfg p).keySlots p).state = .empty ∧
        ((s.g.freed cfg p).keySlots p).attr.id = 0 := by
      unfold PsaGlobalData.freed
      simp only [update_self]
      exact ⟨rfl, rfl⟩
    have hk : Kept cfg p s ⟨s.g.freed cfg p, update s.held p 0⟩ := by
      refine h.change (fun q hq => update_of_ne hq _ _) (fun _ => (h.lists hdyn).freed hslice hne)
        ?_ (fun w hw => ?_) hkey
      · rw [SlotOk, hself.1]
        exact ⟨rfl, hself.2, .inl hcache⟩
      · rcases List.mem_append.mp hw with hw | hw
        · exact .inl hw
        · exact .inr (by rw [List.mem_singleton.mp hw])
    exact ⟨_, psaWipeKeySlot_volatile hdyn (h.lists hdyn) hslice hready, hself.1,
      hk.quiet (by simp [hself.1]) (by simp [hself.1])⟩
  · have hused := h.used hne
    have hidx : p.slice = cfg.cacheSlice := le_antisymm hused.slice hcache
    have hwipe : ∃ g', psaWipeKeySlot cfg s.g p = (.success, g') ∧
        g'.keySlots = update s.g.keySlots p .zero ∧
        g'.firstFreeSlotIndex = s.g.firstFreeSlotIndex ∧ g'.keySlices = s.g.keySlices ∧
        g'.wiped = s.g.wiped ++ [{ slot := p, status := .success }] := by
      unfold psaWipeKeySlot psaFreeKeySlot
      rcases hready with ⟨hs | hs, hr⟩ | ⟨hs, hr⟩ <;> by_cases hdyn : cfg.dynamic = true <;>
        simp [hs, hr, hdyn, hused.sliceIndex, hidx, PsaGlobalData.wipes, PsaGlobalData.setSlot]
    obtain ⟨g', hwipe, hslots, hfirst, halloc, hwiped⟩ := hwipe
    have hself : g'.keySlots p = .zero := by rw [hslots, update_self]
    have hother : ∀ q ≠ p, g'.keySlots q = s.g.keySlots q := by
      intro q hq
      rw [hslots, update_of_ne hq]
    have hempty : (g'.keySlots p).state = .empty := by rw [hself]; rfl
    have hk : Kept cfg p s ⟨g', update s.held p 0⟩ := by
      refine h.change hother (fun hdyn => ?_) ?_ (fun w hw => ?_) hkey
      · refine (h.lists hdyn).congr hfirst halloc fun q hq => hother q ?_
        rintro rfl
        exact absurd hq (Nat.not_lt.mpr (hslice hdyn))
      · rw [hself]
        exact ⟨rfl, rfl, .inr rfl⟩
      · rw [hwiped] at hw
        rcases List.mem_append.mp hw with hw | hw
        · exact .inl hw
        · exact .inr (by rw [List.mem_singleton.mp hw])
    exact ⟨g', hwipe, hempty, hk.quiet (by simp [hempty]) (by simp [hempty])⟩

/-- The readers of a slot are counted, or it is marked for deletion. -/
theorem StoreOk.readers (h : StoreOk cfg s) (n : Nat) (slot : PsaKeySlot)
    (hp : (s.g.keySlots p).state = .full ∨ (s.g.keySlots p).state = .pendingDeletion)
    (hslot : slot.state = .full ∧ (s.g.keySlots p).state = .full ∨
      slot.state = .pendingDeletion ∧ 0 < n)
    (hidx : slot.sliceIndex = (s.g.keySlots p).sliceIndex) (hvar : slot.var = n)
    (hkey : slot.attr = (s.g.keySlots p).attr ∧ slot.key = (s.g.keySlots p).key) :
    Quiet cfg p s ⟨s.g.setSlot p slot, update s.held p n⟩ := by
  have hne : (s.g.keySlots p).state ≠ .empty := by rcases hp with hp | hp <;> simp [hp]
  have hused := h.used hne
  have hused' : UsedOk cfg p slot :=
    ⟨hused.slice, by rw [hidx]; exact hused.sliceIndex, by rw [hkey.1]; exact hused.id⟩
  have hself : (s.g.setSlot p slot).keySlots p = slot := update_self _ _ _
  have hk : Kept cfg p s ⟨s.g.setSlot p slot, update s.held p n⟩ := by
    apply h.write hne (by rcases hslot with hs | hs <;> simp [hs.1]) hidx _ (fun _ _ => hkey)
    unfold SlotOk
    rcases hslot with ⟨hs, _⟩ | ⟨hs, hn⟩ <;> rw [hs]
    · exact ⟨hvar, hused'⟩
    · exact ⟨hvar, hn, hused'⟩
  refine ⟨hk, ?_, ?_⟩ <;> dsimp only <;> rw [hself] <;> intro hs
  · rcases hslot with ⟨_, hfull⟩ | ⟨hpending, _⟩
    · exact ⟨hfull, hkey⟩
    · exact absurd (hs.symm.trans hpending) (by simp)
  · rcases hslot with ⟨hs', _⟩ | ⟨hs', _⟩ <;> exact absurd (hs.symm.trans hs') (by simp)

def ReadersFull (cfg : Config) (s : Store) : Prop := ∃ p, cfg.sizeMod - 1 ≤ s.held p

/-- A corruption is found only where readers cannot be counted. -/
def Sound (cfg : Config) (s : Store) (status : PsaStatus) : Prop :=
  status = .errorCorruptionDetected → ReadersFull cfg s

theorem StoreOk.quiet (h : StoreOk cfg s) : Quiet cfg p s s :=
  ⟨⟨h, fun _ _ => ⟨rfl, rfl⟩, fun _ _ => ⟨rfl, rfl⟩⟩, fun hs => ⟨hs, rfl, rfl⟩,
    fun hs => ⟨hs, rfl, rfl⟩⟩

theorem StoreOk.register (h : StoreOk cfg s) (hp : (s.g.keySlots p).state = .full) :
    (cfg.sizeMod - 1 ≤ s.held p ∧
        (psaRegisterRead cfg (s.g.keySlots p)).1 = .errorCorruptionDetected) ∨
      psaRegisterRead cfg (s.g.keySlots p) =
        (.success, { s.g.keySlots p with var := s.held p + 1 }) := by
  have hvar := h.held_eq (.inl hp)
  unfold psaRegisterRead PsaKeySlot.registeredReaders
  rw [hvar]
  by_cases hmax : s.held p ≥ cfg.sizeMod - 1
  · rw [if_pos (Or.inr hmax)]
    exact .inl ⟨hmax, rfl⟩
  · rw [if_neg (by simp [hp, hmax])]
    exact .inr rfl

/-- The first reader of a slot can be counted. -/
theorem StoreOk.register_first (h : StoreOk cfg s) (hp : (s.g.keySlots p).state = .full)
    (hheld : s.held p = 0) :
    psaRegisterRead cfg (s.g.keySlots p) = (.success, { s.g.keySlots p with var := 1 }) := by
  have hsize := cfg.sizeMod_eq
  rw [(h.register hp).resolve_left fun hc => by omega, hheld]

def Locked (cfg : Config) (s : Store) (key : PsaKeyId) (r : SlotResult) : Prop :=
  ∃ p, r.status = .success ∧ r.slot = some p ∧
    (r.g.keySlots p).state = .full ∧ (r.g.keySlots p).attr.id = key ∧
    Quiet cfg p s ⟨r.g, update s.held p (s.held p + 1)⟩

theorem StoreOk.lockInMemory (h : StoreOk cfg s) (key : PsaKeyId) :
    (∃ status, psaGetAndLockKeySlotInMemory cfg s.g key = s.g.returns status none key ∧
        Sound cfg s status) ∨
      Locked cfg s key (psaGetAndLockKeySlotInMemory cfg s.g key) := by
  -- Only a full slot with this identifier is registered.
  have hregister : ∀ p, (s.g.keySlots p).state = .full ∧ key = (s.g.keySlots p).attr.id →
      let t := psaRegisterRead cfg (s.g.keySlots p)
      let r := if t.1 = .success then (s.g.setSlot p t.2).returns .success (some p) key
        else s.g.returns t.1 none key
      (∃ status, r = s.g.returns status none key ∧ Sound cfg s status) ∨ Locked cfg s key r := by
    rintro p ⟨hp, hid⟩ t r
    rcases h.register hp with ⟨hmax, hstatus⟩ | hread
    · left
      exact ⟨t.1, if_neg (by simp [t, hstatus]), fun _ => ⟨p, hmax⟩⟩
    · right
      rw [show r = (s.g.setSlot p { s.g.keySlots p with var := s.held p + 1 }).returns .success
        (some p) key by simp only [r, t, hread, if_pos]]
      refine ⟨p, rfl, rfl, ?_, ?_, h.readers _ _ (.inl hp) (.inl ⟨hp, hp⟩) rfl rfl ⟨rfl, rfl⟩⟩ <;>
        simp [PsaGlobalData.returns, PsaGlobalData.setSlot, hp, hid]
  have hmiss : ∀ status : PsaStatus, status = .errorDoesNotExist ∨ status = .errorInvalidHandle →
      ∃ status', s.g.returns status none key = s.g.returns status' none key ∧
        Sound cfg s status' := by
    rintro status (rfl | rfl) <;> exact ⟨_, rfl, fun hs => by cases hs⟩
  unfold psaGetAndLockKeySlotInMemory
  dsimp only
  split
  · split
    · next p _ =>
      split
      · next hholds => exact hregister p (by simpa using hholds)
      · exact .inl (hmiss _ (.inl rfl))
    · exact .inl (hmiss _ (.inl rfl))
  · split
    · split
      · next hsome => exact hregister _ (by simpa using List.find?_some hsome)
      · exact .inl (hmiss _ (.inl rfl))
    · exact .inl (hmiss _ (.inr rfl))

theorem StoreOk.unregister (h : StoreOk cfg s) (hp : 0 < s.held p) :
    ∃ g', psaUnregisterRead cfg s.g p = (.success, g') ∧
      Quiet cfg p s ⟨g', update s.held p (s.held p - 1)⟩ := by
  have hstate := h.locked hp
  have hvar := h.held_eq hstate
  unfold psaUnregisterRead
  rw [if_neg (by rcases hstate with hs | hs <;> simp [hs])]
  split
  · next hlast =>
    have hone : s.held p = 1 := hvar.symm.trans hlast.2
    obtain ⟨g', hwipe, _, hk⟩ := h.wipe (p := p) (.inl ⟨hstate, hlast.2⟩)
    rw [hone]
    exact ⟨g', hwipe, hk⟩
  · next hmany =>
    rw [if_pos (by simp [psaKeySlotHasReaders, PsaKeySlot.registeredReaders, hvar, hp])]
    refine ⟨_, rfl, h.readers _ _ hstate ?_ rfl (congrArg (· - 1) hvar) ⟨rfl, rfl⟩⟩
    rcases hstate with hs | hs
    · exact .inl ⟨hs, hs⟩
    · have hone : ¬ (s.g.keySlots p).var = 1 := fun hone => hmany ⟨hs, hone⟩
      exact .inr ⟨hs, by omega⟩

/-- A key that is not found is in no slot of the cache. -/
theorem lockInMemory_absent {key : PsaKeyId} (hv : ¬ cfg.psaKeyIdIsVolatile key = true)
    (h : (psaGetAndLockKeySlotInMemory cfg g key).status = .errorDoesNotExist) {i : Nat}
    (hi : i < cfg.slotCount) (hp : p = getPersistentKeySlot cfg i)
    (hfull : (g.keySlots p).state = .full) : (g.keySlots p).attr.id ≠ key := by
  rintro hid
  have hread : ∀ slot : PsaKeySlot, (psaRegisterRead cfg slot).1 ≠ .errorDoesNotExist := by
    intro slot
    unfold psaRegisterRead
    split <;> simp
  unfold psaGetAndLockKeySlotInMemory at h
  dsimp only at h
  rw [if_neg hv] at h
  split at h
  · split at h
    · split at h
      · cases h
      · exact hread _ h
    · next hnone =>
      have hmiss := List.find?_eq_none.mp hnone i (List.mem_range.mpr hi)
      rw [← hp] at hmiss
      exact hmiss (by simp [hfull, hid])
  · cases h

/-! ## Reserving a slot -/

theorem volatileKeyIdOfIndex_toNat (hslice : p.slice < keySlotVolatileSliceCount)
    (hindex : p.index < cfg.volatileSliceLength p.slice) :
    (volatileKeyIdOfIndex p.slice p.index).toNat = (32 + p.slice) * 2 ^ 25 + p.index ∧
      p.index < 2 ^ 25 ∧ p.slice < 22 := by
  have hle := cfg.length_le p.slice hslice
  have hindex' : p.index < 2 ^ 25 := by omega
  have hcount : keySlotVolatileSliceCount = 22 := rfl
  have hor : (0x40000000 ||| p.slice <<< 25) = (32 + p.slice) <<< 25 := by
    have htop : 1 <<< 5 + p.slice = 1 <<< 5 ||| p.slice :=
      Nat.shiftLeft_add_eq_or_of_lt (by omega) 1
    rw [show 32 + p.slice = 1 <<< 5 + p.slice from rfl, htop, Nat.shiftLeft_or_distrib]
    rfl
  refine ⟨?_, hindex', by omega⟩
  unfold volatileKeyIdOfIndex
  rw [hor, ← Nat.shiftLeft_add_eq_or_of_lt hindex', Nat.shiftLeft_eq, BitVec.toNat_ofNat]
  exact Nat.mod_eq_of_lt (by omega)

/-- The identifier of a volatile key leads to its slot. -/
theorem getVolatileKeySlot_ofIndex (hdyn : cfg.dynamic = true)
    (hslice : p.slice < keySlotVolatileSliceCount)
    (hindex : p.index < cfg.volatileSliceLength p.slice) (hg : g.keySlices p.slice = true) :
    getVolatileKeySlot cfg g (volatileKeyIdOfIndex p.slice p.index) = some p := by
  obtain ⟨hid, hlt, hlt'⟩ := volatileKeyIdOfIndex_toNat hslice hindex
  have hsliceOf : sliceIndexOfVolatileKeyId (volatileKeyIdOfIndex p.slice p.index) = p.slice := by
    unfold sliceIndexOfVolatileKeyId
    rw [hid, Nat.shiftRight_eq_div_pow, Nat.and_two_pow_sub_one_eq_mod]
    omega
  have hindexOf : slotIndexOfVolatileKeyId (volatileKeyIdOfIndex p.slice p.index) = p.index := by
    unfold slotIndexOfVolatileKeyId
    rw [hid, Nat.and_two_pow_sub_one_eq_mod]
    omega
  unfold getVolatileKeySlot
  simp only [hsliceOf, hindexOf, keySliceLength_of_lt hdyn hslice, hg]
  rw [if_pos hdyn, if_neg (by omega), if_neg (by omega), if_neg (by simp)]

theorem isVolatile_ofIndex (hdyn : cfg.dynamic = true)
    (hslice : p.slice < keySlotVolatileSliceCount)
    (hindex : p.index < cfg.volatileSliceLength p.slice) :
    cfg.psaKeyIdIsVolatile (volatileKeyIdOfIndex p.slice p.index) = true := by
  obtain ⟨hid, hlt, hlt'⟩ := volatileKeyIdOfIndex_toNat hslice hindex
  unfold Config.psaKeyIdIsVolatile Config.psaKeyIdVolatileMax psaKeyIdVolatileMin
    mbedtlsPsaKeyIdBuiltinMin
  rw [hid, hdyn, if_pos rfl]
  exact decide_eq_true (by omega)

theorem ofSlot_toNat {i : Nat} (hi : i < cfg.slotCount) :
    (BitVec.ofNat 32 (psaKeyIdVolatileMin + i)).toNat = psaKeyIdVolatileMin + i := by
  have hcount := cfg.slotCount_le
  unfold mbedtlsPsaKeyIdBuiltinMin psaKeyIdVolatileMin at hcount
  unfold psaKeyIdVolatileMin
  rw [BitVec.toNat_ofNat, Nat.mod_eq_of_lt (by omega)]

theorem getVolatileKeySlot_ofSlot (hstatic : cfg.dynamic = false) {i : Nat}
    (hi : i < cfg.slotCount) :
    getVolatileKeySlot cfg g (BitVec.ofNat 32 (psaKeyIdVolatileMin + i)) =
      some (getPersistentKeySlot cfg i) := by
  unfold getVolatileKeySlot getPersistentKeySlot Config.cacheSlice
  rw [hstatic, if_neg (by simp), if_neg (by simp), ofSlot_toNat hi, Nat.add_sub_cancel_left]

theorem isVolatile_ofSlot (hstatic : cfg.dynamic = false) {i : Nat} (hi : i < cfg.slotCount) :
    cfg.psaKeyIdIsVolatile (BitVec.ofNat 32 (psaKeyIdVolatileMin + i)) = true := by
  unfold Config.psaKeyIdIsVolatile Config.psaKeyIdVolatileMax
  rw [ofSlot_toNat hi, hstatic, if_neg (by simp)]
  exact decide_eq_true (by omega)

theorem reserveScan_empty (l : List Nat) (unused : Option Nat) {i : Nat} :
    (reserveScan cfg g l unused).1 = some i →
      i ∈ l ∧ (g.keySlots (getPersistentKeySlot cfg i)).state = .empty := by
  fun_induction reserveScan cfg g l unused with
  | case1 => simp
  | case2 unused idx rest slot hempty =>
    rintro ⟨rfl⟩
    exact ⟨List.mem_cons_self, hempty⟩
  | case3 unused idx rest slot _ ih =>
    intro hscan
    exact ⟨List.mem_cons_of_mem _ (ih hscan).1, (ih hscan).2⟩

theorem reserveScan_unused (l : List Nat) (unused : Option Nat) {i : Nat} :
    (reserveScan cfg g l unused).2 = some i → unused = some i ∨
      (i ∈ l ∧ (g.keySlots (getPersistentKeySlot cfg i)).state = .full ∧
        (g.keySlots (getPersistentKeySlot cfg i)).var = 0) := by
  fun_induction reserveScan cfg g l unused with
  | case1 => exact .inl
  | case2 => exact .inl
  | case3 unused idx rest slot _ ih =>
    intro hscan
    rcases ih hscan with hnew | ⟨hmem, hfull⟩
    · split at hnew
      · next hslot =>
        cases hnew
        refine .inr ⟨List.mem_cons_self, hslot.2.1, ?_⟩
        simpa [psaKeySlotHasReaders, PsaKeySlot.registeredReaders] using hslot.2.2.1
      · exact .inl hnew
    · exact .inr ⟨List.mem_cons_of_mem _ hmem, hfull⟩

/-- A creator gets a slot that nobody uses; `keyId` leads to it. -/
def Reserved (cfg : Config) (s : Store) (wantsVolatile : Bool) (r : SlotResult) : Prop :=
  ∃ p, r.status = .success ∧ r.slot = some p ∧ (r.g.keySlots p).state = .filling ∧
    s.held p = 0 ∧ Kept cfg p s ⟨r.g, s.held⟩ ∧
    if wantsVolatile then cfg.psaKeyIdIsVolatile r.keyId = true ∧ ∀ g : PsaGlobalData,
      g.keySlices p.slice = true → getVolatileKeySlot cfg g r.keyId = some p
    else ∃ i < cfg.slotCount, p = getPersistentKeySlot cfg i

theorem Reserved.allocated (h : StoreOk cfg s) (hdyn : cfg.dynamic = true)
    (hslice : p.slice < keySlotVolatileSliceCount)
    (hindex : p.index < cfg.volatileSliceLength p.slice) (hp : (s.g.keySlots p).state = .empty)
    (hfirst : s.g.firstFreeSlotIndex p.slice = p.index) :
    Reserved cfg s true ((s.g.allocated cfg p).returns .success (some p)
      (volatileKeyIdOfIndex p.slice p.index)) := by
  have hslot := h.slot p
  rw [SlotOk, hp] at hslot
  have hself : (s.g.allocated cfg p).keySlots p =
      { s.g.keySlots p with state := .filling, sliceIndex := p.slice, var := 0 } :=
    update_self _ _ _
  have hcache : p.slice ≤ cfg.cacheSlice := by
    unfold Config.cacheSlice
    rw [hdyn, if_pos rfl]
    exact hslice.le
  have hk : Kept cfg p s ⟨s.g.allocated cfg p, update s.held p 0⟩ := by
    refine h.change (fun q hq => update_of_ne hq _ _)
      (fun _ => (h.lists hdyn).allocated hslice hindex hfirst) ?_ (fun _ => .inl)
      fun _ hn => absurd hn (by simp)
    rw [hself]
    exact ⟨rfl, rfl, hcache, fun _ => rfl, fun hv => absurd (hslot.2.1 ▸ hv) not_volatile_zero⟩
  rw [← hslot.1, update_eq_self] at hk
  exact ⟨p, rfl, rfl, congrArg PsaKeySlot.state hself, hslot.1, hk,
    isVolatile_ofIndex hdyn hslice hindex,
    fun g hg => getVolatileKeySlot_ofIndex hdyn hslice hindex hg⟩

theorem StoreOk.reserve (h : StoreOk cfg s) (calloc wantsVolatile : Bool) :
    (∃ status, psaReserveFreeKeySlot cfg calloc s.g wantsVolatile = s.g.returns status none 0 ∧
        status ≠ .errorCorruptionDetected) ∨
      Reserved cfg s wantsVolatile (psaReserveFreeKeySlot cfg calloc s.g wantsVolatile) := by
  -- A slot of the cache that is empty, at once or after another key is evicted.
  have hfill : ∀ (g : PsaGlobalData) (i : Nat), let p := getPersistentKeySlot cfg i
      Kept cfg p s ⟨g, s.held⟩ → i < cfg.slotCount →
      (g.keySlots p).state = .empty → ¬ (cfg.dynamic ∧ wantsVolatile) →
      let t := psaKeySlotStateTransition (g.keySlots p) .empty .filling
      Reserved cfg s wantsVolatile
        (if t.1 ≠ .success then g.returns t.1 none 0
        else
          (g.setSlot p
            (if cfg.dynamic then { t.2 with sliceIndex := cfg.cacheSlice } else t.2)).returns
              .success (some p)
              (if wantsVolatile then BitVec.ofNat 32 (psaKeyIdVolatileMin + i) else 0)) := by
    intro g i p hk hi hempty hstatic t
    obtain ⟨hzero, hk'⟩ := hk.ok.take hempty rfl
    have ht : t = (.success, { g.keySlots p with state := .filling }) := by
      simp [t, psaKeySlotStateTransition, hempty]
    have htaken : (if cfg.dynamic then { t.2 with sliceIndex := cfg.cacheSlice } else t.2) =
        (g.keySlots p).taken cfg := by
      rw [ht, PsaKeySlot.taken]
      split <;> rfl
    rw [htaken, if_neg (by simp [ht])]
    refine ⟨p, rfl, rfl, ?_, hzero, hk.trans hk' (.inl hzero), ?_⟩
    · show (update g.keySlots p _ p).state = _
      rw [update_self]
      rfl
    · cases hw : wantsVolatile with
      | false => exact ⟨i, hi, rfl⟩
      | true =>
        have hfixed : cfg.dynamic = false := by simpa [hw] using hstatic
        exact ⟨isVolatile_ofSlot hfixed hi, fun g _ => getVolatileKeySlot_ofSlot hfixed hi⟩
  unfold psaReserveFreeKeySlot
  dsimp only
  split
  · exact .inl ⟨_, rfl, by simp⟩
  split
  · next hvolatile =>
    rw [hvolatile.2]
    rcases psaAllocateVolatileKeySlot_cases hvolatile.1 (h.lists hvolatile.1) calloc with
      ⟨p, hslice, hindex, hempty, hfirst, heq⟩ | ⟨heq, _⟩
    · rw [heq]
      exact .inr (.allocated h hvolatile.1 hslice hindex hempty hfirst)
    · exact .inl ⟨_, heq, by simp⟩
  next hstatic =>
  split
  · next i _ hscan =>
    obtain ⟨hmem, hempty⟩ := reserveScan_empty _ _ (congrArg Prod.fst hscan)
    exact .inr (hfill s.g i h.quiet.toKept (List.mem_range.mp hmem) hempty hstatic)
  · exact .inl ⟨_, rfl, by simp⟩
  · next i hscan =>
    obtain ⟨hmem, hfull, hvar⟩ :=
      (reserveScan_unused _ _ (congrArg Prod.snd hscan)).resolve_left (by simp)
    have hzero := (h.held_eq (.inl hfull)).symm.trans hvar
    rw [h.register_first hfull hzero]
    have hk := h.readers 1 { s.g.keySlots (getPersistentKeySlot cfg i) with var := 1 }
      (.inl hfull) (.inl ⟨hfull, hfull⟩) rfl rfl ⟨rfl, rfl⟩
    obtain ⟨g', hwipe, hempty, hk'⟩ := hk.ok.wipe (p := getPersistentKeySlot cfg i) (.inl (by
      simp [PsaGlobalData.setSlot, hfull, PsaKeySlot.registeredReaders]))
    have hback := hk.toKept.trans hk'.toKept (.inl hzero)
    rw [update_idem, ← hzero, update_eq_self] at hback
    rw [hwipe, if_neg (by simp)]
    exact .inr (hfill g' i hback (List.mem_range.mp hmem) hempty hstatic)

/-! ## The calls -/

/-- A creator writes a slot that it fills. -/
theorem StoreOk.write_filling (h : StoreOk cfg s) (slot : PsaKeySlot)
    (hp : (s.g.keySlots p).state = .filling)
    (hslot : slot.state = .filling ∨ slot.state = .full)
    (hslice : slot.sliceIndex = (s.g.keySlots p).sliceIndex)
    (hvar : slot.var = (s.g.keySlots p).var)
    (hid : slot.attr.id = (s.g.keySlots p).attr.id ∨
      (cfg.psaKeyIdIsVolatile slot.attr.id = true → ∀ g : PsaGlobalData,
        g.keySlices p.slice = true → getVolatileKeySlot cfg g slot.attr.id = some p)) :
    Kept cfg p s ⟨s.g.setSlot p slot, s.held⟩ := by
  have hne : (s.g.keySlots p).state ≠ .empty := by simp [hp]
  have hused := h.used hne
  have hold := h.slot p
  rw [SlotOk, hp] at hold
  have hused' : UsedOk cfg p slot := by
    refine ⟨hused.slice, by rw [hslice]; exact hused.sliceIndex, ?_⟩
    rcases hid with hid | hid
    · rw [hid]
      exact hused.id
    · exact hid
  have hok : SlotOk cfg p 0 slot := by
    rw [hold.2.1] at hvar
    unfold SlotOk
    rcases hslot with hs | hs <;> rw [hs]
    · exact ⟨rfl, hvar, hused'⟩
    · exact ⟨hvar, hused'⟩
  have hk := h.write (n := 0) hne (by rcases hslot with hs | hs <;> simp [hs]) hslice hok
    fun _ hn => absurd hn (by simp)
  rwa [← hold.1, update_eq_self] at hk

theorem StoreOk.fail (h : StoreOk cfg s) (hp : (s.g.keySlots p).state = .filling) :
    ∃ g', psaWipeKeySlot cfg s.g p = (.success, g') ∧ (g'.keySlots p).state = .empty ∧
      Quiet cfg p s ⟨g', s.held⟩ := by
  have hold := h.slot p
  rw [SlotOk, hp] at hold
  obtain ⟨g', hwipe, hempty, hk⟩ := h.wipe (p := p) (.inr ⟨hp, hold.2.1⟩)
  rw [← hold.1, update_eq_self] at hk
  exact ⟨g', hwipe, hempty, hk⟩

theorem not_volatile_of_user {key : PsaKeyId} (h : psaKeyIdIsUser key = true) :
    ¬ cfg.psaKeyIdIsVolatile key = true := by
  unfold psaKeyIdIsUser psaKeyIdUserMax at h
  unfold Config.psaKeyIdIsVolatile psaKeyIdVolatileMin
  simp only [decide_eq_true_eq] at h ⊢
  omega

/-- A persistent key is in the cache. -/
def PersistentOk (cfg : Config) (p : SlotPtr) (slot : PsaKeySlot) : Prop :=
  psaKeyIdIsUser slot.attr.id = true ∧ ∃ i < cfg.slotCount, p = getPersistentKeySlot cfg i

def FillingOk (cfg : Config) (p : SlotPtr) (slot : PsaKeySlot) : Prop :=
  if psaKeyLifetimeIsVolatile slot.attr.lifetime then cfg.psaKeyIdIsVolatile slot.attr.id = true
  else PersistentOk cfg p slot

variable {attributes : PsaKeyAttributes}

theorem psaValidateKeyAttributes_ne :
    psaValidateKeyAttributes attributes ≠ .errorCorruptionDetected := by
  unfold psaValidateKeyAttributes psaValidateKeyPersistence psaValidateKeyPolicy
  dsimp only
  split_ifs <;> simp

theorem psaValidateKeyAttributes_user (h : psaValidateKeyAttributes attributes = .success)
    (hpersistent : ¬ psaKeyLifetimeIsVolatile attributes.lifetime = true) :
    psaKeyIdIsUser attributes.id = true := by
  by_contra huser
  unfold psaValidateKeyAttributes psaValidateKeyPersistence at h
  by_cases hro : psaKeyLifetimeIsReadOnly attributes.lifetime = true <;>
    simp [hpersistent, huser, hro] at h

theorem StoreOk.start (h : StoreOk cfg s) (calloc : Bool) (attributes : PsaKeyAttributes) :
    let r := psaStartKeyCreation cfg s.g calloc attributes
    r.status ≠ .errorCorruptionDetected ∧ (r.g = s.g ∨ ∃ p, Kept cfg p s ⟨r.g, s.held⟩ ∧
      (r.g.keySlots p).state = .filling ∧ FillingOk cfg p (r.g.keySlots p)) := by
  unfold psaStartKeyCreation
  dsimp only
  split
  · exact ⟨psaValidateKeyAttributes_ne, .inl rfl⟩
  next hvalid =>
  rw [not_not] at hvalid
  rcases h.reserve calloc (psaKeyLifetimeIsVolatile attributes.lifetime) with
    ⟨status, heq, hne⟩ | ⟨p, hstatus, hslot, hfilling, hheld, hk, hid⟩
  · rw [heq]
    exact ⟨hne, .inl rfl⟩
  generalize psaReserveFreeKeySlot cfg calloc s.g (psaKeyLifetimeIsVolatile attributes.lifetime) =
    r at *
  rw [hslot]
  set id := if psaKeyLifetimeIsVolatile attributes.lifetime then r.keyId else attributes.id
    with hdef
  set slot : PsaKeySlot := { r.g.keySlots p with attr := { attributes with id := id } } with hs
  have hself : (r.g.setSlot p slot).keySlots p = slot := update_self _ _ _
  have hboth : FillingOk cfg p slot ∧ (cfg.psaKeyIdIsVolatile id = true → ∀ g : PsaGlobalData,
      g.keySlices p.slice = true → getVolatileKeySlot cfg g id = some p) := by
    unfold FillingOk
    by_cases hvolatile : psaKeyLifetimeIsVolatile attributes.lifetime = true
    · rw [if_pos hvolatile] at hid hdef ⊢
      rw [hs, hdef]
      exact ⟨hid.1, fun _ => hid.2⟩
    · have huser := psaValidateKeyAttributes_user hvalid hvolatile
      rw [if_neg hvolatile] at hid hdef ⊢
      rw [hs, hdef]
      exact ⟨⟨huser, hid⟩, fun hv => absurd hv (not_volatile_of_user huser)⟩
  have hk' := hk.ok.write_filling slot (p := p) hfilling (.inl hfilling) rfl rfl
    (.inr hboth.2)
  refine ⟨?_, .inr ⟨p, hk.trans hk' (.inl hheld), ?_, ?_⟩⟩
  · show r.status ≠ _
    simp [hstatus]
  · show ((r.g.setSlot p slot).keySlots p).state = _
    rwa [hself]
  · show FillingOk cfg p ((r.g.setSlot p slot).keySlots p)
    rw [hself]
    exact hboth.1

theorem StoreOk.destroy (h : StoreOk cfg s) (hp : 0 < s.held p) (env : DestroyEnv) (its : Its) :
    ∃ g', Quiet cfg p s ⟨g', update s.held p (s.held p - 1)⟩ ∧
      (psaDestroyKey cfg s.g env its p = (.errorInvalidHandle, g', its) ∨
      ((s.g.keySlots p).state = .full ∧ (g'.keySlots p).state ≠ .full ∧
        psaDestroyKey cfg s.g env its p =
          let slot := s.g.keySlots p
          let d :=
            if psaKeyLifetimeIsReadOnly slot.attr.lifetime then (.errorNotPermitted, its)
            else if psaKeyLifetimeIsVolatile slot.attr.lifetime then (.success, its)
            else psaDestroyPersistentKey env its slot.attr.id
          (d.1, g', d.2))) := by
  unfold psaDestroyKey
  dsimp only
  split
  · obtain ⟨g', heq, hk⟩ := h.unregister hp
    rw [heq]
    exact ⟨g', hk, .inl rfl⟩
  next hpending =>
  have hfull := (h.locked hp).resolve_right hpending
  have ht : psaKeySlotStateTransition (s.g.keySlots p) .full .pendingDeletion =
      (.success, { s.g.keySlots p with state := .pendingDeletion }) := by
    simp [psaKeySlotStateTransition, hfull]
  rw [ht]
  have hself : (s.g.setSlot p { s.g.keySlots p with state := .pendingDeletion }).keySlots p = _ :=
    update_self _ _ _
  have hk := h.readers _ { s.g.keySlots p with state := .pendingDeletion }
    (.inl hfull) (.inr ⟨rfl, hp⟩) rfl (h.held_eq (.inl hfull)) ⟨rfl, rfl⟩
  rw [update_eq_self] at hk
  obtain ⟨g', heq, hk'⟩ := hk.ok.unregister hp
  simp only at heq hk'
  rw [heq]
  refine ⟨g', hk.trans hk' (.inr hp), .inr ⟨hfull, fun hs => ?_, by simp⟩⟩
  have hmid := (hk'.full hs).1
  rw [hself] at hmid
  cases hmid

theorem StoreOk.purge (h : StoreOk cfg s) (key : PsaKeyId) :
    ∃ p, Quiet cfg p s ⟨(psaPurgeKey cfg s.g key).2, s.held⟩ ∧
      Sound cfg s (psaPurgeKey cfg s.g key).1 := by
  unfold psaPurgeKey
  dsimp only
  rcases h.lockInMemory key with ⟨status, heq, hsound⟩ | ⟨p, _, hslot, hfull, _, hk⟩
  · rw [heq]
    exact ⟨⟨0, 0⟩, h.quiet, hsound⟩
  rw [hslot]
  generalize psaGetAndLockKeySlotInMemory cfg s.g key = r at *
  have hheld : update s.held p (s.held p + 1) p = s.held p + 1 := update_self _ _ _
  have hvar := hk.ok.held_eq (.inl hfull)
  dsimp only at hvar ⊢
  split
  · next hlast =>
    obtain ⟨g', heq, _, hk'⟩ := hk.ok.wipe (p := p) (.inl ⟨.inl hfull, hlast.2⟩)
    have hzero : s.held p = 0 := by
      have hone : (r.g.keySlots p).var = 1 := hlast.2
      omega
    have hback := hk.trans hk' (.inl hzero)
    rw [update_idem, ← hzero, update_eq_self] at hback
    rw [heq]
    exact ⟨p, hback, fun hs => by cases hs⟩
  · obtain ⟨g', heq, hk'⟩ := hk.ok.unregister (p := p) (by simp only; omega)
    have hback := hk.trans hk' (.inr (by simp only; omega))
    simp only at hback
    rw [update_idem, hheld, Nat.add_sub_cancel, update_eq_self] at hback
    rw [heq]
    exact ⟨p, hback, fun hs => by cases hs⟩

theorem psaWipeKeySlot_setSlot (hstate : slot.state = (g.keySlots p).state)
    (hslice : slot.sliceIndex = (g.keySlots p).sliceIndex) (hvar : slot.var = (g.keySlots p).var) :
    psaWipeKeySlot cfg (g.setSlot p slot) p = psaWipeKeySlot cfg g p := by
  unfold psaWipeKeySlot PsaKeySlot.registeredReaders PsaGlobalData.setSlot
  simp only [update_self, update_idem, hstate, hslice, hvar]

/-- What loading leaves in the slot, and that it is for keys of users. -/
def LoadOk (load : PsaKeySlot → PsaStatus × PsaKeySlot) : Prop :=
  ∀ slot, (load slot).2.state = slot.state ∧ (load slot).2.sliceIndex = slot.sliceIndex ∧
    (load slot).2.var = slot.var ∧ (load slot).2.attr.id = slot.attr.id ∧
    ((load slot).1 = .success → psaKeyIdIsUser slot.attr.id = true)

/-- The key with its implicit usage flags. -/
def extended (attr : PsaKeyAttributes) : PsaKeyAttributes :=
  { attr with policy := { attr.policy with usage := psaExtendKeyUsageFlags attr.policy.usage } }

/-- A user gets a slot into which the key has been loaded. -/
def Loaded (cfg : Config) (s : Store) (load : PsaKeySlot → PsaStatus × PsaKeySlot)
    (key : PsaKeyId) (r : SlotResult) : Prop :=
  ∃ p slot, r.status = .success ∧ r.slot = some p ∧ (r.g.keySlots p).state = .full ∧
    slot.attr.id = key ∧ (load slot).1 = .success ∧
    (psaGetAndLockKeySlotInMemory cfg s.g key).status = .errorDoesNotExist ∧
    (∃ i < cfg.slotCount, p = getPersistentKeySlot cfg i) ∧
    (r.g.keySlots p).attr = extended (load slot).2.attr ∧
    (r.g.keySlots p).key = (load slot).2.key ∧
    Kept cfg p s ⟨r.g, update s.held p (s.held p + 1)⟩

theorem StoreOk.getAndLock (h : StoreOk cfg s) {load : PsaKeySlot → PsaStatus × PsaKeySlot}
    (hload : LoadOk load) (key : PsaKeyId) :
    let r := psaGetAndLockKeySlot cfg s.g load key
    (r.slot = none ∧ (∃ p, Quiet cfg p s ⟨r.g, s.held⟩) ∧
        (r.status = .errorCorruptionDetected →
          (∃ slot, (load slot).1 = .errorCorruptionDetected) ∨ ReadersFull cfg s)) ∨
      Locked cfg s key r ∨ Loaded cfg s load key r := by
  unfold psaGetAndLockKeySlot
  dsimp only
  split
  · exact .inl ⟨rfl, ⟨⟨0, 0⟩, h.quiet⟩, fun hs => by cases hs⟩
  rcases h.lockInMemory key with ⟨status, heq, hsound⟩ | hlocked
  swap
  · obtain ⟨p, hstatus, _⟩ := id hlocked
    rw [hstatus, if_pos (by simp)]
    exact .inr (.inl hlocked)
  have habsent := congrArg SlotResult.status heq
  rw [heq]
  split
  · exact .inl ⟨rfl, ⟨⟨0, 0⟩, h.quiet⟩, fun hs => .inr (hsound hs)⟩
  next hmissing =>
  rw [not_not] at hmissing
  rw [show (s.g.returns status none key).g = s.g from rfl]
  rcases h.reserve true false with
    ⟨status', heq', hne⟩ | ⟨p, _, hslot, hfilling, hheld, hk, hcache⟩
  · rw [heq']
    exact .inl ⟨rfl, ⟨⟨0, 0⟩, h.quiet⟩, fun hs => absurd hs hne⟩
  rw [hslot]
  generalize psaReserveFreeKeySlot cfg true s.g false = r at *
  dsimp only
  generalize hbare : ({ r.g.keySlots p with attr := { (r.g.keySlots p).attr with
    id := key, lifetime := psaKeyLifetimePersistent } } : PsaKeySlot) = bare
  obtain ⟨hstate, hslice, hvar, hid, huser⟩ := hload bare
  have hbareId : bare.attr.id = key := by rw [← hbare]
  have hsame : bare.state = (r.g.keySlots p).state ∧
      bare.sliceIndex = (r.g.keySlots p).sliceIndex ∧ bare.var = (r.g.keySlots p).var := by
    rw [← hbare]
    exact ⟨rfl, rfl, rfl⟩
  rw [hsame.1] at hstate
  rw [hsame.2.1] at hslice
  rw [hsame.2.2] at hvar
  split
  · obtain ⟨g', hwipe, hempty, hk'⟩ := hk.ok.fail hfilling
    rw [psaWipeKeySlot_setSlot hstate hslice hvar, hwipe]
    refine .inl ⟨rfl, ⟨p, (hk.trans hk'.toKept (.inl hheld)).quiet (hempty ▸ by simp)
      (hempty ▸ by simp)⟩, fun hs => .inl ⟨bare, ?_⟩⟩
    simp only [PsaGlobalData.returns] at hs
    split_ifs at hs
    exact hs
  next hloaded =>
  rw [not_not] at hloaded
  set slot : PsaKeySlot := { (load bare).2 with
    state := .full
    attr := extended (load bare).2.attr } with hdef
  rw [show psaKeySlotStateTransition _ .filling .full = (.success, slot) by
    simp [psaKeySlotStateTransition, hdef, hstate, hfilling, extended]]
  have hk' := hk.trans (hk.ok.write_filling slot hfilling (.inr rfl) hslice hvar
    (.inr fun hv => absurd (hid ▸ hv) (not_volatile_of_user (huser hloaded)))) (.inl hheld)
  have hself : (r.g.setSlot p slot).keySlots p = slot := update_self _ _ _
  have hfull : ((r.g.setSlot p slot).keySlots p).state = .full := by rw [hself]
  have hread := hk'.ok.register_first hfull hheld
  rw [hself] at hread
  dsimp only
  rw [hread]
  have hk'' := hk'.ok.readers (s.held p + 1) { slot with var := 1 }
    (.inl hfull) (.inl ⟨rfl, hfull⟩) (by rw [hself]) (by rw [hheld]) ⟨by rw [hself], by rw [hself]⟩
  rw [show (r.g.setSlot p slot).setSlot p { slot with var := 1 } =
    r.g.setSlot p { slot with var := 1 } by simp only [PsaGlobalData.setSlot, update_idem]] at hk''
  refine .inr (.inr ⟨p, bare, rfl, rfl, ?_, hbareId, hloaded, habsent.trans hmissing, hcache,
    ?_, ?_, hk'.trans hk''.toKept (.inl hheld)⟩) <;>
    simp [PsaGlobalData.returns, PsaGlobalData.setSlot, hdef]

end TfPsaCrypto.KeyStore
