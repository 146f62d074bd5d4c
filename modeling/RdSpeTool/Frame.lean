import RdSpeTool.Meter

/-!
# The frame of a thread

The frame is what no handler changes: identity, perf events other than the watchpoint ranges, and
the shape of every array. A registered thread keeps the frame it was created with until it is
detached, and a reset with successful moves is determined by the frame alone.
-/

namespace RdSpeTool

open ProbeTable

/-- Shape of one slot: parking address and which snapshot buffers exist. -/
structure SlotFrame where
  idleAddr : U64
  seedSnapshot : Bool
  reuseSnapshot : Bool

def Slot.frame (s : Slot) : SlotFrame := ⟨s.idleAddr, s.seedSnapshot.isSome, s.reuseSnapshot.isSome⟩

structure Frame where
  tid : ℤ
  cpu : ℤ
  active : Bool
  liveDetached : Bool
  scratchBase : U64
  scratchStride : U64
  memEvent : Option Bool
  bpEvents : List PerfEvent
  slots : List SlotFrame
  log2Hist : ℕ
  pairHist : List ℕ
  contexts : ℕ
  dwarfEvents : Option ℕ

abbrev Thread.frame (th : Thread) : Frame where
  tid := th.tid
  cpu := th.cpu
  active := th.active
  liveDetached := th.liveDetached
  scratchBase := th.scratchBase
  scratchStride := th.scratchStride
  memEvent := th.memEvent
  bpEvents := th.bpEvents
  slots := th.slots.map Slot.frame
  log2Hist := th.log2Hist.length
  pairHist := th.pairHist.map fun e => e.buckets.length
  contexts := th.contexts.length
  dwarfEvents := th.dwarfEvents.map List.length

section Handlers

variable (c : SessionCtl) (th : Thread)

theorem frame_updateSlot (i : ℕ) {f : Slot → Slot}
    (h : ∀ s, th.slots[i]? = some s → (f s).frame = s.frame) :
    (th.updateSlot i f).frame = th.frame := by
  simp only [Thread.frame, Thread.updateSlot, map_modify_eq_map h]

theorem frame_mapCell (i : ℕ) {f : Cell → Cell} (h : ∀ x, (f x).idleAddr = x.idleAddr) :
    (th.updateSlot i (Slot.mapCell f)).frame = th.frame := by
  apply frame_updateSlot
  intro s _
  simp only [Slot.frame, Slot.mapCell, h]

theorem frame_captureChain (u : UserMem) (regs : Option PtRegs) :
    (captureChain c th u regs).1.frame = th.frame := by
  obtain ⟨_, _, he⟩ := captureChain_fst c th u regs
  rw [he]

theorem frame_rdCaptureDwarfSnapshot (u : UserMem) (regs : Option PtRegs) :
    (rdCaptureDwarfSnapshot c th u regs).1.frame = th.frame := by
  obtain ⟨_, he⟩ := rdCaptureDwarfSnapshot_fst c th u regs
  rw [he]

theorem slots_captureChain (u : UserMem) (regs : Option PtRegs) :
    (captureChain c th u regs).1.slots = th.slots := by
  obtain ⟨_, _, he⟩ := captureChain_fst c th u regs
  rw [he]

theorem slots_rdCaptureDwarfSnapshot (u : UserMem) (regs : Option PtRegs) :
    (rdCaptureDwarfSnapshot c th u regs).1.slots = th.slots := by
  obtain ⟨_, he⟩ := rdCaptureDwarfSnapshot_fst c th u regs
  rw [he]

theorem slots_contextOf (chain : List U64) : (contextOf c th chain).1.slots = th.slots := by
  unfold contextOf rdGetContextIdLocked
  split_ifs
  · rfl
  · cases probe ContextEntry.used (fun e => e.ips == chain) th.contexts 0 none <;> rfl
  · rfl

theorem slots_rdAddPairHistLocked (key : PairKey) (bucket : ℕ) :
    (rdAddPairHistLocked th key bucket).slots = th.slots := by
  unfold rdAddPairHistLocked
  split_ifs
  · rfl
  · cases probe PairHistEntry.used (fun e => e.key == key) th.pairHist 0 none <;> rfl

theorem slots_addBucket (slot : Slot) (bucket : ℕ) :
    (addBucket c th slot bucket).slots = th.slots := by
  unfold addBucket
  dsimp only
  split_ifs <;> rfl

theorem slots_rdReserveDwarfEventLocked :
    (rdReserveDwarfEventLocked c th).1.slots = th.slots := by
  unfold rdReserveDwarfEventLocked
  split_ifs <;> rfl

theorem frame_contextOf (chain : List U64) : (contextOf c th chain).1.frame = th.frame := by
  unfold contextOf rdGetContextIdLocked
  split_ifs
  · rfl
  · split
    · rfl
    · simp [Thread.frame]
    · rfl
  · rfl

theorem frame_rdAddPairHistLocked (key : PairKey) (bucket : ℕ) :
    (rdAddPairHistLocked th key bucket).frame = th.frame := by
  have hlen : ∀ (i : ℕ) (f : PairHistEntry → PairHistEntry),
      (∀ e, (f e).buckets.length = e.buckets.length) →
      (th.pairHist.modify i f).map (fun e => e.buckets.length) =
        th.pairHist.map fun e => e.buckets.length :=
    fun i f hf => map_modify_eq_map (fun e _ => hf e)
  unfold rdAddPairHistLocked
  split_ifs
  · rfl
  · split
    · simp only [Thread.frame, hlen _ (PairHistEntry.bump bucket) (by simp [PairHistEntry.bump])]
    · simp only [Thread.frame, hlen _ (PairHistEntry.claim key bucket) (by simp [PairHistEntry.claim])]
    · rfl

theorem frame_rdReserveDwarfEventLocked :
    (rdReserveDwarfEventLocked c th).1.frame = th.frame := by
  unfold rdReserveDwarfEventLocked
  split_ifs <;> rfl

theorem frame_storeEvent (slot : Slot) (i : ℕ) (reusePc hitAccess : U64) (index : Option ℕ) :
    (storeEvent th slot i reusePc hitAccess index).frame = th.frame := by
  cases index with
  | none => rfl
  | some index =>
      have hlen : (th.dwarfEvents.map fun es => es.set index
          (dwarfEventOf th slot i index reusePc hitAccess)).map List.length =
          th.dwarfEvents.map List.length := by
        cases th.dwarfEvents <;> simp
      simp only [storeEvent, Thread.frame, hlen]

theorem frame_addBucket (slot : Slot) (bucket : ℕ) :
    (addBucket c th slot bucket).frame = th.frame := by
  unfold addBucket
  dsimp only
  split_ifs
  · simp only [Thread.frame, List.length_modify]
  · rfl

theorem frame_recordReuse (slot : Slot) (i : ℕ) (reusePc : U64) (chain : List U64)
    (hitAccess : U64) : (recordReuse c th slot i reusePc chain hitAccess).frame = th.frame := by
  have hreserve : ∀ t : Thread, (if c.callchainMode = .dwarf then rdReserveDwarfEventLocked c t
      else (t, none)).1.frame = t.frame := by
    intro t
    split_ifs
    · exact frame_rdReserveDwarfEventLocked c t
    · rfl
  unfold recordReuse
  dsimp only
  rw [frame_storeEvent]
  refine (hreserve _).trans ?_
  rw [frame_rdAddPairHistLocked, frame_addBucket, frame_contextOf]

theorem frame_rdModifySlot (i : ℕ) (addr : U64) (len : ℕ) (ret : ℤ) :
    (rdModifySlot c th i addr len ret).1.frame = th.frame := by
  unfold rdModifySlot
  split_ifs
  · rfl
  · exact frame_mapCell th i (fun _ => rfl)
  · rfl

theorem Slot.frame_clear (s : Slot) : s.clear.frame = s.frame := by
  simp [Slot.frame, Slot.clear, Cell.clear]

theorem frame_rdClearSlotMetadata (i : ℕ) : (rdClearSlotMetadata c th i).frame = th.frame := by
  unfold rdClearSlotMetadata
  split_ifs
  · rfl
  · exact frame_updateSlot th i (fun s _ => s.frame_clear)

theorem frame_retireSlot (i : ℕ) (idleAddr : U64) (idleRet : ℤ) :
    (retireSlot c th i idleAddr idleRet).frame = th.frame := by
  unfold retireSlot
  dsimp only
  rw [frame_rdModifySlot]
  split_ifs
  · exact frame_rdClearSlotMetadata c th i
  · rfl

theorem frame_captureSeed (i : ℕ) (u : UserMem) (regs : PtRegs) :
    (captureSeed c th i u regs).frame = th.frame := by
  unfold captureSeed
  split_ifs with h
  · dsimp only
    have hcap := frame_rdCaptureDwarfSnapshot c th u (some regs)
    have hslots := slots_rdCaptureDwarfSnapshot c th u (some regs)
    rw [← hcap]
    apply frame_updateSlot
    intro s hs
    rw [hslots] at hs
    have hsome : s.seedSnapshot.isSome = true := by simpa [hs] using h.2
    simp [Slot.frame, hsome]
  · rfl

theorem frame_installSeed (i : ℕ) (isReplacement : Bool) (target : Target) (targetIndex : ℕ)
    (seedVa seedAccess : U64) (contextId : ℕ) (regs : PtRegs) (env : HitEnv) :
    (installSeed c th i isReplacement target targetIndex seedVa seedAccess contextId regs env).frame =
      th.frame := by
  have hsettle : ∀ t : Thread,
      (settleSeed c t i seedVa target.decode.accessSize env).frame = t.frame := by
    intro t
    unfold settleSeed
    dsimp only
    split_ifs
    · rw [frame_rdModifySlot, frame_rdClearSlotMetadata]
      exact frame_rdModifySlot c t i seedVa target.decode.accessSize env.modRet
    · exact frame_rdModifySlot c t i seedVa target.decode.accessSize env.modRet
  have hevict : (countEviction th i isReplacement).frame = th.frame := by
    unfold countEviction
    split_ifs <;> rfl
  unfold installSeed
  dsimp only
  rw [hsettle, frame_captureSeed]
  refine Eq.trans (frame_updateSlot _ i ?_) hevict
  intro s _
  rfl

theorem frame_rdPickWpSlot : (rdPickWpSlot c th).1.frame = th.frame := by
  have hpass : ∀ (rng : U64) (slots : List Slot),
      (replacePass rng slots).1.map Slot.frame = slots.map Slot.frame := by
    intro rng slots
    induction slots generalizing rng with
    | nil => rfl
    | cons s rest ih =>
        have hs : (s.mapCell Cell.sampled).frame = s.frame := by
          simp only [Slot.frame, Slot.mapCell, Cell.sampled]
          split_ifs <;> rfl
        simp only [replacePass]
        split_ifs <;> simp [hs, ih]
  obtain ⟨_, _, _, slots, hslots, he⟩ := rdPickWpSlot_fst c th
  have hmap : slots.map Slot.frame = th.slots.map Slot.frame := by
    rcases hslots with rfl | rfl
    · rfl
    · exact hpass th.rng th.slots
  rw [he]
  simp only [Thread.frame, hmap]

/-- Up to the choice of a slot the frame is the old one. -/
theorem ReachesChoice.frame {t : ℕ} {regs : Option PtRegs} {env : HitEnv} {r : PtRegs}
    {target : Target} {a : U64} {th' : Thread} {choice : Option (ℕ × Bool)}
    (h : ReachesChoice c th t regs env r target a th' choice) : th'.frame = th.frame := by
  have hpick := frame_rdPickWpSlot c (captureChain c th env.user (some r)).1.addCandidate
  rw [h.picked] at hpick
  exact hpick.trans (frame_captureChain c th env.user (some r))

theorem frame_rdHandleBpHit (targetIndex : ℕ) (regs : Option PtRegs) (env : HitEnv) :
    (rdHandleBpHit c th targetIndex regs env).frame = th.frame := by
  obtain he | ⟨r, target, a, th', choice, h, hcase⟩ := rdHandleBpHit_cases c th targetIndex regs env
  · rw [he]
  · obtain he | he | ⟨i, isReplacement, -, -, he⟩ := hcase
    · rw [he, h.frame]
    · rw [he]
      exact h.frame
    · rw [he, frame_installSeed, frame_contextOf, h.frame]

theorem frame_captureReuse (i : ℕ) (u : UserMem) (regs : Option PtRegs) :
    (captureReuse c th i u regs).1.frame = th.frame := by
  have hchain := frame_captureChain c th u regs
  unfold captureReuse
  dsimp only
  split_ifs with h
  · generalize (captureChain c th u regs).1 = th1 at hchain h
    have hcap := frame_rdCaptureDwarfSnapshot c th1 u regs
    have hslots := slots_rdCaptureDwarfSnapshot c th1 u regs
    rw [← hchain, ← hcap]
    apply frame_updateSlot
    intro s hs
    rw [hslots] at hs
    have hsome : s.reuseSnapshot.isSome = true := by simpa [hs] using h.2
    simp [Slot.frame, hsome]
  · exact hchain

theorem frame_rdHandleWpHit (i : ℕ) (regs : Option PtRegs) (env : HitEnv) :
    (rdHandleWpHit c th i regs env).frame = th.frame := by
  obtain ⟨-, he | he | ⟨slot, th', -, -, hth', he⟩⟩ | ⟨slot, a, -, -, -, he⟩ :=
    rdHandleWpHit_cases c th i regs env
  · rw [he]
  · rw [he]
    exact frame_mapCell th i (fun _ => rfl)
  · rw [he, frame_retireSlot]
    rcases hth' with rfl | rfl
    · rfl
    · exact frame_captureReuse c th i env.user regs
  · rw [he, frame_retireSlot, frame_recordReuse, frame_captureReuse]

/-- No hit changes the frame of its thread. -/
theorem frame_hit (h : Hit) : (th.hit c h).frame = th.frame := by
  cases h with
  | bp t regs env => exact frame_rdHandleBpHit c th t regs env
  | wp i regs env => exact frame_rdHandleWpHit c th i regs env

end Handlers
end RdSpeTool
