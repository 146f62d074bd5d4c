import RdSpeTool.ThreadShape

/-!
# A reset rebuilds the registered thread

When every watchpoint move succeeds, what `RESET_SESSION` leaves of a thread depends on its frame
only. A live thread becomes the thread its registration had appended, field by field; a detached
one keeps its identity and empty tables.
-/

namespace RdSpeTool

open ProbeTable

def SlotFrame.fresh (f : SlotFrame) : Slot :=
  { state := .idle, idleAddr := f.idleAddr, seedVa := 0, seedAccess := 0, seedPcOffset := 0
    accessSize := 0, targetIndex := 0, generation := 0, skipFirstHit := false, samples := 1
    wpEvent := ⟨f.idleAddr, idleWpLen, false⟩, seedContextId := 0
    seedSnapshot := if f.seedSnapshot then some .zero else none
    reuseSnapshot := if f.reuseSnapshot then some .zero else none }

def Frame.fresh (f : Frame) : Thread where
  tid := f.tid
  cpu := f.cpu
  active := f.active
  liveDetached := f.liveDetached
  scratchBase := f.scratchBase
  scratchStride := f.scratchStride
  memEvent := f.memEvent
  bpEvents := f.bpEvents
  slots := f.slots.map SlotFrame.fresh
  log2Hist := List.replicate f.log2Hist 0
  pairHist := List.replicate f.pairHist.length .zero
  contexts := List.replicate f.contexts .zero
  dwarfEvents := f.dwarfEvents.map fun n => List.replicate n .zero
  candidateSamples := 0
  reservoirSeen := 0
  reservoirAccepted := 0
  reservoirRejected := 0
  hits := 0
  evictions := 0
  dropped := 0
  pairHistUsed := 0
  pairHistDropped := 0
  contextUsed := 0
  contextDropped := 0
  callchainFailed := 0
  callchainTruncated := 0
  dwarfEventUsed := 0
  dwarfEventDropped := 0
  dwarfStackCopyFailed := 0
  rng := initialRng f.tid

/-- A slot whose watchpoint was parked while no window is open. -/
def Slot.parked (s : Slot) : Slot := s.mapCell (Cell.watch ⟨s.idleAddr, idleWpLen, false⟩)

theorem Slot.reset_parked (s : Slot) : s.parked.reset = s.frame.fresh := by
  unfold Slot.parked Slot.mapCell Slot.reset Slot.clear Slot.frame SlotFrame.fresh
  cases s.seedSnapshot <;> cases s.reuseSnapshot <;> rfl

/-- Successful moves park the first `n` slots and change nothing else. -/
theorem parkSlots_eq {c : SessionCtl} (hr : c.running = false) {mods : ℕ → ℤ}
    (hmods : ∀ i, mods i = 0) {th : Thread} (hlen : th.slots.length = c.wpCapacity) {n : ℕ}
    (hn : n ≤ c.wpCapacity) : (parkSlots c mods n th).1 =
      { th with slots := th.slots.mapIdx fun j s => if j < n then s.parked else s } := by
  induction n with
  | zero =>
      have hid : (th.slots.mapIdx fun j s => if j < 0 then s.parked else s) = th.slots := by
        apply List.ext_getElem?
        intro j
        rw [List.getElem?_mapIdx]
        cases th.slots[j]? <;> simp
      rw [hid]
      rfl
  | succ n ih =>
      have hlt : n < th.slots.length := by omega
      have hin : ¬ (n ≥ c.wpCapacity ∨
          n ≥ (th.slots.mapIdx fun j s => if j < n then s.parked else s).length) := by
        simp only [List.length_mapIdx]
        omega
      simp only [parkSlots, ih (by omega)]
      unfold rdModifySlot
      rw [if_neg hin, if_pos (hmods n)]
      simp only [Thread.updateSlot, hr, Bool.false_and]
      congr 1
      apply List.ext_getElem?
      intro j
      rw [List.getElem?_modify, List.getElem?_mapIdx, List.getElem?_mapIdx, List.getElem?_mapIdx]
      cases hj : th.slots[j]? with
      | none => rfl
      | some s =>
          by_cases hjn : n = j
          · subst hjn
            simp [hj, Slot.parked]
          · by_cases hlt' : j < n
            · simp [hjn, hlt', Nat.lt_succ_of_lt hlt']
            · have hge : ¬ j < n + 1 := by omega
              simp [hjn, hlt', hge]

/-- With successful moves a reset sees nothing but the frame. -/
theorem rdResetThreadLocked_eq {c : SessionCtl} {th : Thread} (hs : Shaped c th)
    (hr : c.running = false) {mods : ℕ → ℤ} (hmods : ∀ i, mods i = 0) :
    (rdResetThreadLocked c th mods).2 = th.frame.fresh := by
  have hwipe : ∀ p : Thread, p.slots.map Slot.reset = th.slots.map (fun s => s.frame.fresh) →
      p.frame = th.frame → p.wipe = th.frame.fresh := by
    intro p hslots hf
    rw [← hf]
    have hslots' : p.slots.map Slot.reset = (p.slots.map Slot.frame).map SlotFrame.fresh := by
      have hfs : p.slots.map Slot.frame = th.slots.map Slot.frame := congrArg Frame.slots hf
      rw [hfs, hslots, List.map_map]
      rfl
    have hdwarf : (p.dwarfEvents.map fun es => List.replicate es.length DwarfEvent.zero) =
        (p.dwarfEvents.map List.length).map fun n => List.replicate n .zero := by
      cases p.dwarfEvents <;> rfl
    simp only [Thread.wipe, Frame.fresh, hslots', List.map_const', hdwarf, List.length_map]
  unfold rdResetThreadLocked
  cases ha : th.active with
  | true =>
      have hlen := hs.slots_length ha
      refine hwipe _ ?_ (frame_parkSlots c mods c.wpCapacity th)
      simp only [if_true, parkSlots_eq hr hmods hlen (Nat.le_refl _)]
      apply List.ext_getElem?
      intro j
      rw [List.getElem?_map, List.getElem?_mapIdx, List.getElem?_map]
      cases hj : th.slots[j]? with
      | none => rfl
      | some s =>
          have hlt : j < c.wpCapacity := hlen ▸ (List.getElem?_eq_some_iff.mp hj).1
          simp [hlt, Slot.reset_parked]
  | false =>
      refine hwipe _ ?_ rfl
      simp [hs.slots_nil ha]

/-- The thread that registration appends while no window is open is what a reset rebuilds. -/
theorem fresh_newThread {c : SessionCtl} (hr : c.running = false) (arg : ThreadRegister) :
    (newThread c arg).frame.fresh = newThread c arg := by
  have hslot : ∀ i, (freshSlot c arg.scratchBase arg.scratchStride i).frame.fresh =
      freshSlot c arg.scratchBase arg.scratchStride i := by
    intro i
    by_cases hmode : c.callchainMode = .dwarf
    · simp [freshSlot, freshSnapshot, hmode, Slot.frame, SlotFrame.fresh]
    · simp [freshSlot, freshSnapshot, hmode, Slot.frame, SlotFrame.fresh]
  have hnew : newThread c arg = setupThread c (allocThread arg) := by
    unfold newThread
    rw [hr]
    rfl
  rw [hnew]
  simp only [Frame.fresh, setupThread, allocThread, List.map_map, List.length_map,
    List.length_replicate]
  congr 1
  · exact List.map_congr_left fun i _ => hslot i
  · split_ifs <;> simp

/-- A reset with successful moves turns a live thread into a newly registered one. -/
theorem reset_eq_newThread {c : SessionCtl} {th : Thread} (hs : Shaped c th)
    (ha : th.active = true) (hr : c.running = false) {mods : ℕ → ℤ} (hmods : ∀ i, mods i = 0) :
    (rdResetThreadLocked c th mods).2 =
      newThread c ⟨th.tid, th.cpu, th.scratchBase, th.scratchStride⟩ := by
  obtain ⟨arg, hf⟩ := hs.of_live ha
  have harg : (⟨th.tid, th.cpu, th.scratchBase, th.scratchStride⟩ : ThreadRegister) = arg := by
    have hid := hf
    rw [newThread_eq, Frame.mk.injEq] at hid
    obtain ⟨h1, h2, -, -, h5, h6, -⟩ := hid
    rw [h1, h2, h5, h6]
    rfl
  rw [rdResetThreadLocked_eq hs hr hmods, hf, harg, fresh_newThread hr]

end RdSpeTool
