import RdSpeTool.Frame
import RdSpeTool.MeterSteps

/-!
# What a hit writes to the result tables

The pair table and the raw events of a thread change only when a watchpoint report is recorded.
Whether it is, and with which cell and counter value, is decided by the meter; the key of the pair
and the captured snapshots come from the call context.
-/

namespace RdSpeTool

open ProbeTable

structure Tables where
  pairHist : List PairHistEntry
  pairHistUsed : ℕ
  pairHistDropped : ℕ
  dwarfEvents : Option (List DwarfEvent)
  dwarfEventUsed : ℕ
  dwarfEventDropped : ℕ

abbrev Thread.tables (th : Thread) : Tables where
  pairHist := th.pairHist
  pairHistUsed := th.pairHistUsed
  pairHistDropped := th.pairHistDropped
  dwarfEvents := th.dwarfEvents
  dwarfEventUsed := th.dwarfEventUsed
  dwarfEventDropped := th.dwarfEventDropped

namespace Tables

variable (t : Tables)

def addPair (key : PairKey) (bucket : ℕ) : Tables :=
  if key.reusePc = 0 ∨ bucket ≥ log2Buckets then
    { t with pairHistDropped := t.pairHistDropped + 1 }
  else
    match probe PairHistEntry.used (fun e => e.key == key) t.pairHist 0 none with
    | .found i => { t with pairHist := t.pairHist.modify i (PairHistEntry.bump bucket) }
    | .free i =>
        { t with
            pairHist := t.pairHist.modify i (PairHistEntry.claim key bucket)
            pairHistUsed := t.pairHistUsed + 1 }
    | .full => { t with pairHistDropped := t.pairHistDropped + 1 }

def addEvent (c : SessionCtl) (event : ℕ → DwarfEvent) : Tables :=
  if c.callchainMode ≠ .dwarf ∨ t.dwarfEvents = none ∨ c.dwarfEventCapacity = 0 then t
  else if t.dwarfEventUsed ≥ c.dwarfEventCapacity then
    { t with dwarfEventDropped := t.dwarfEventDropped + 1 }
  else
    { t with
        dwarfEventUsed := t.dwarfEventUsed + 1
        dwarfEvents := t.dwarfEvents.map fun es => es.set t.dwarfEventUsed (event t.dwarfEventUsed) }

theorem addPair_events (key : PairKey) (bucket : ℕ) :
    (t.addPair key bucket).dwarfEvents = t.dwarfEvents ∧
      (t.addPair key bucket).dwarfEventUsed = t.dwarfEventUsed ∧
      (t.addPair key bucket).dwarfEventDropped = t.dwarfEventDropped := by
  unfold addPair
  split_ifs
  · exact ⟨rfl, rfl, rfl⟩
  · cases probe PairHistEntry.used (fun e => e.key == key) t.pairHist 0 none with
    | found i => exact ⟨rfl, rfl, rfl⟩
    | free i => exact ⟨rfl, rfl, rfl⟩
    | full => exact ⟨rfl, rfl, rfl⟩

theorem addEvent_pairs (c : SessionCtl) (event : ℕ → DwarfEvent) :
    (t.addEvent c event).pairHist = t.pairHist ∧
      (t.addEvent c event).pairHistUsed = t.pairHistUsed ∧
      (t.addEvent c event).pairHistDropped = t.pairHistDropped := by
  unfold addEvent
  split_ifs <;> exact ⟨rfl, rfl, rfl⟩

end Tables

section Untouched

variable (c : SessionCtl) (th : Thread)

theorem tables_rdCaptureDwarfSnapshot (u : UserMem) (regs : Option PtRegs) :
    (rdCaptureDwarfSnapshot c th u regs).1.tables = th.tables := by
  obtain ⟨_, he⟩ := rdCaptureDwarfSnapshot_fst c th u regs
  rw [he]

theorem tables_captureChain (u : UserMem) (regs : Option PtRegs) :
    (captureChain c th u regs).1.tables = th.tables := by
  obtain ⟨_, _, he⟩ := captureChain_fst c th u regs
  rw [he]

theorem tables_contextOf (chain : List U64) : (contextOf c th chain).1.tables = th.tables := by
  unfold contextOf rdGetContextIdLocked
  split_ifs
  · rfl
  · split <;> rfl
  · rfl

theorem tables_rdModifySlot (i : ℕ) (addr : U64) (len : ℕ) (ret : ℤ) :
    (rdModifySlot c th i addr len ret).1.tables = th.tables := by
  unfold rdModifySlot
  split_ifs <;> rfl

theorem tables_rdClearSlotMetadata (i : ℕ) : (rdClearSlotMetadata c th i).tables = th.tables := by
  unfold rdClearSlotMetadata
  split_ifs <;> rfl

theorem tables_rdPickWpSlot : (rdPickWpSlot c th).1.tables = th.tables := by
  obtain ⟨_, _, _, _, -, he⟩ := rdPickWpSlot_fst c th
  rw [he]

theorem tables_installSeed (i : ℕ) (isReplacement : Bool) (target : Target) (targetIndex : ℕ)
    (seedVa seedAccess : U64) (contextId : ℕ) (regs : PtRegs) (env : HitEnv) :
    (installSeed c th i isReplacement target targetIndex seedVa seedAccess contextId regs
      env).tables = th.tables := by
  have hsettle : ∀ t : Thread,
      (settleSeed c t i seedVa target.decode.accessSize env).tables = t.tables := by
    intro t
    unfold settleSeed
    dsimp only
    split_ifs
    · rw [tables_rdModifySlot, tables_rdClearSlotMetadata]
      exact tables_rdModifySlot c t i seedVa target.decode.accessSize env.modRet
    · exact tables_rdModifySlot c t i seedVa target.decode.accessSize env.modRet
  have hcapture : ∀ t : Thread, (captureSeed c t i env.user regs).tables = t.tables := by
    intro t
    unfold captureSeed
    split_ifs
    · exact tables_rdCaptureDwarfSnapshot c t env.user (some regs)
    · rfl
  have hevict : (countEviction th i isReplacement).tables = th.tables := by
    unfold countEviction
    split_ifs <;> rfl
  unfold installSeed
  dsimp only
  rw [hsettle, hcapture]
  exact hevict

/-- Breakpoint hits write no result. -/
theorem tables_rdHandleBpHit (targetIndex : ℕ) (regs : Option PtRegs) (env : HitEnv) :
    (rdHandleBpHit c th targetIndex regs env).tables = th.tables := by
  obtain he | ⟨r, target, a, th', choice, h, hcase⟩ := rdHandleBpHit_cases c th targetIndex regs env
  · rw [he]
  · have hp : th'.tables = th.tables := by
      have hpick := tables_rdPickWpSlot c (captureChain c th env.user (some r)).1.addCandidate
      rw [h.picked] at hpick
      exact hpick.trans (tables_captureChain c th env.user (some r))
    obtain he | he | ⟨i, isReplacement, -, -, he⟩ := hcase
    · rw [he, hp]
    · rw [he]
      exact hp
    · rw [he, tables_installSeed, tables_contextOf, hp]

theorem tables_retireSlot (i : ℕ) (idleAddr : U64) (idleRet : ℤ) :
    (retireSlot c th i idleAddr idleRet).tables = th.tables := by
  unfold retireSlot
  dsimp only
  rw [tables_rdModifySlot]
  split_ifs
  · exact tables_rdClearSlotMetadata c th i
  · rfl

theorem tables_captureReuse (i : ℕ) (u : UserMem) (regs : Option PtRegs) :
    (captureReuse c th i u regs).1.tables = th.tables := by
  have hchain := tables_captureChain c th u regs
  unfold captureReuse
  dsimp only
  split_ifs
  · exact (tables_rdCaptureDwarfSnapshot c _ u regs).trans hchain
  · exact hchain

end Untouched

section Recorded

variable (c : SessionCtl) (th : Thread)

theorem tables_addBucket (slot : Slot) (bucket : ℕ) :
    (addBucket c th slot bucket).tables = th.tables := by
  unfold addBucket
  dsimp only
  split_ifs <;> rfl

theorem tables_rdAddPairHistLocked (key : PairKey) (bucket : ℕ) :
    (rdAddPairHistLocked th key bucket).tables = th.tables.addPair key bucket := by
  unfold rdAddPairHistLocked Tables.addPair
  by_cases h : key.reusePc = 0 ∨ bucket ≥ log2Buckets
  · rw [if_pos h, if_pos h]
  · rw [if_neg h, if_neg h]
    cases probe PairHistEntry.used (fun e => e.key == key) th.pairHist 0 none <;> rfl

/-- The event of a reuse is marked, knows its index, and is filed under its own distance. -/
structure DwarfEvent.Stored (n : ℕ) (e : DwarfEvent) : Prop where
  used : e.used = true
  eventIndex : e.eventIndex = n
  delta : e.delta = reuseDelta e.seedAccess e.hitAccess
  bucket : e.bucket = rdLog2Bucket e.delta

theorem contextOf_eq_zero (h : c.callchainMode ≠ .fp) (chain : List U64) :
    (contextOf c th chain).2 = 0 := by
  unfold contextOf
  rw [if_neg (fun hh => h hh.1)]

/-- The id of a chain depends on the context table only. -/
theorem contextOf_congr {th' : Thread} (h : th.contexts = th'.contexts) (chain : List U64) :
    (contextOf c th chain).2 = (contextOf c th' chain).2 := by
  unfold contextOf rdGetContextIdLocked
  rw [h]
  split_ifs
  · rfl
  · split <;> rfl
  · rfl

theorem captureReuse_contexts (i : ℕ) (u : UserMem) (regs : Option PtRegs) :
    (captureReuse c th i u regs).1.contexts = th.contexts ∧
      (captureReuse c th i u regs).2 = (captureChain c th u regs).2 := by
  have hchain : (captureChain c th u regs).1.contexts = th.contexts := by
    obtain ⟨_, _, he⟩ := captureChain_fst c th u regs
    rw [he]
  have hsnap : ∀ t : Thread, (rdCaptureDwarfSnapshot c t u regs).1.contexts = t.contexts := by
    intro t
    obtain ⟨_, he⟩ := rdCaptureDwarfSnapshot_fst c t u regs
    rw [he]
  unfold captureReuse
  dsimp only
  split_ifs
  · exact ⟨(hsnap _).trans hchain, rfl⟩
  · exact ⟨hchain, rfl⟩

theorem dwarfEventOf_stored (slot : Slot) (i n : ℕ) (reusePc hitAccess : U64) :
    (dwarfEventOf th slot i n reusePc hitAccess).Stored n := ⟨rfl, rfl, rfl, rfl⟩

/-- The event of a reuse is made of the slot of its thread. -/
theorem dwarfEventOf_congr {th th' : Thread} (hslots : th'.slots = th.slots) (htid : th'.tid = th.tid)
    (slot : Slot) (i n : ℕ) (reusePc hitAccess : U64) :
    dwarfEventOf th' slot i n reusePc hitAccess = dwarfEventOf th slot i n reusePc hitAccess := by
  unfold dwarfEventOf
  rw [hslots, htid]

theorem tables_recordReuse (slot : Slot) (i : ℕ) (reusePc : U64) (chain : List U64)
    (hitAccess : U64) :
    ∃ event, (∀ n, event n = dwarfEventOf th slot i n reusePc hitAccess) ∧
      (recordReuse c th slot i reusePc chain hitAccess).tables =
        (th.tables.addPair
          ⟨slot.seedPcOffset, slot.seedContextId, reusePc, (contextOf c th chain).2⟩
          (rdLog2Bucket (reuseDelta slot.seedAccess hitAccess))).addEvent c event := by
  unfold recordReuse
  dsimp only
  have hbucket := tables_addBucket c (contextOf c th chain).1 slot
    (rdLog2Bucket (reuseDelta slot.seedAccess hitAccess))
  rw [tables_contextOf] at hbucket
  have hpair := tables_rdAddPairHistLocked (addBucket c (contextOf c th chain).1 slot
    (rdLog2Bucket (reuseDelta slot.seedAccess hitAccess)))
    ⟨slot.seedPcOffset, slot.seedContextId, reusePc, (contextOf c th chain).2⟩
    (rdLog2Bucket (reuseDelta slot.seedAccess hitAccess))
  rw [hbucket] at hpair
  have hslots := slots_rdAddPairHistLocked (addBucket c (contextOf c th chain).1 slot
    (rdLog2Bucket (reuseDelta slot.seedAccess hitAccess)))
    ⟨slot.seedPcOffset, slot.seedContextId, reusePc, (contextOf c th chain).2⟩
    (rdLog2Bucket (reuseDelta slot.seedAccess hitAccess))
  rw [slots_addBucket, slots_contextOf] at hslots
  have htid := congrArg Frame.tid (frame_rdAddPairHistLocked
    (addBucket c (contextOf c th chain).1 slot
      (rdLog2Bucket (reuseDelta slot.seedAccess hitAccess)))
    ⟨slot.seedPcOffset, slot.seedContextId, reusePc, (contextOf c th chain).2⟩
    (rdLog2Bucket (reuseDelta slot.seedAccess hitAccess)))
  rw [frame_addBucket, frame_contextOf] at htid
  generalize rdAddPairHistLocked (addBucket c (contextOf c th chain).1 slot
    (rdLog2Bucket (reuseDelta slot.seedAccess hitAccess)))
    ⟨slot.seedPcOffset, slot.seedContextId, reusePc, (contextOf c th chain).2⟩
    (rdLog2Bucket (reuseDelta slot.seedAccess hitAccess)) = th1 at hpair hslots htid
  obtain ⟨hs, ht⟩ : (if c.callchainMode = .dwarf then rdReserveDwarfEventLocked c th1
      else (th1, none)).1.slots = th1.slots ∧ (if c.callchainMode = .dwarf then
        rdReserveDwarfEventLocked c th1 else (th1, none)).1.tid = th1.tid := by
    unfold rdReserveDwarfEventLocked
    split_ifs <;> exact ⟨rfl, rfl⟩
  refine ⟨fun n => dwarfEventOf
    (if c.callchainMode = .dwarf then rdReserveDwarfEventLocked c th1 else (th1, none)).1.addHit
    slot i n reusePc hitAccess, fun n => dwarfEventOf_congr (hs.trans hslots) (ht.trans htid)
      slot i n reusePc hitAccess, ?_⟩
  rw [← hpair]
  unfold rdReserveDwarfEventLocked Tables.addEvent
  by_cases hmode : c.callchainMode = .dwarf
  · simp only [if_pos hmode]
    by_cases hnone : c.callchainMode ≠ .dwarf ∨ th1.dwarfEvents = none ∨ c.dwarfEventCapacity = 0
    · simp only [if_pos hnone]
      rfl
    · simp only [if_neg hnone]
      split_ifs <;> rfl
  · simp only [if_neg hmode]
    rw [if_pos (Or.inl hmode)]
    rfl

end Recorded

theorem tables_rdHandleWpHit (c : SessionCtl) (th : Thread) (i : ℕ) (regs : Option PtRegs)
    (env : HitEnv) :
    (th.meter.recorded c.meterCtl i env = none ∧
      (rdHandleWpHit c th i regs env).tables = th.tables) ∨
    ∃ slot a ctx event, th.slots[i]? = some slot ∧
      th.meter.recorded c.meterCtl i env = some (slot.toCell, a) ∧
      ctx = (contextOf c th (captureChain c th env.user regs).2).2 ∧
      (∀ n, event n = dwarfEventOf (captureReuse c th i env.user regs).1 slot i n
        ((regs.map PtRegs.pc).getD 0) a) ∧
      (rdHandleWpHit c th i regs env).tables =
        (th.tables.addPair ⟨slot.seedPcOffset, slot.seedContextId, (regs.map PtRegs.pc).getD 0, ctx⟩
          (rdLog2Bucket (reuseDelta slot.seedAccess a))).addEvent c event := by
  obtain ⟨hnone, hcase⟩ | ⟨slot, a, -, hslot, hrecorded, he⟩ := rdHandleWpHit_cases c th i regs env
  · refine Or.inl ⟨hnone, ?_⟩
    obtain he | he | ⟨slot, th', -, -, hth', he⟩ := hcase
    · rw [he]
    · rw [he]
      rfl
    · rw [he, tables_retireSlot]
      rcases hth' with rfl | rfl
      · rfl
      · exact tables_captureReuse c th i env.user regs
  · obtain ⟨hcontexts, hchain⟩ := captureReuse_contexts c th i env.user regs
    obtain ⟨event, hevent, htables⟩ := tables_recordReuse c (captureReuse c th i env.user regs).1
      slot i ((regs.map PtRegs.pc).getD 0) (captureReuse c th i env.user regs).2 a
    rw [contextOf_congr c _ hcontexts, tables_captureReuse, hchain] at htables
    refine Or.inr ⟨slot, a, _, event, hslot, hrecorded, rfl, hevent, ?_⟩
    rw [he, tables_retireSlot, hchain, htables]

end RdSpeTool
