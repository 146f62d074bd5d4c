import RdSpeTool.Session

/-!
# The meter: what a hit measures, without its call context

A `Meter` keeps the cells, the target histogram, the seed counters and the random state of a
thread. Its transitions take the place of the two handlers and never see a callchain mode, a
context table or a snapshot. `meter_rdHandleBpHit` and `meter_rdHandleWpHit` show that every
handler of the module acts on the meter of its thread exactly by these transitions.
-/

namespace RdSpeTool

open ProbeTable

structure MeterCtl where
  running : Bool
  wpCapacity : ℕ
  targets : List Target

abbrev SessionCtl.meterCtl (c : SessionCtl) : MeterCtl := ⟨c.running, c.wpCapacity, c.targets⟩

@[ext]
structure Meter where
  active : Bool
  memEvent : Option Bool
  cells : List Cell
  log2Hist : List ℕ
  candidateSamples : ℕ
  reservoirSeen : ℕ
  reservoirAccepted : ℕ
  reservoirRejected : ℕ
  hits : ℕ
  evictions : ℕ
  dropped : ℕ
  rng : U64

abbrev Thread.meter (th : Thread) : Meter where
  active := th.active
  memEvent := th.memEvent
  cells := th.slots.map Slot.toCell
  log2Hist := th.log2Hist
  candidateSamples := th.candidateSamples
  reservoirSeen := th.reservoirSeen
  reservoirAccepted := th.reservoirAccepted
  reservoirRejected := th.reservoirRejected
  hits := th.hits
  evictions := th.evictions
  dropped := th.dropped
  rng := th.rng

namespace Meter

variable (k : MeterCtl) (m : Meter)

def updateCell (i : ℕ) (f : Cell → Cell) : Meter := { m with cells := m.cells.modify i f }

def addCandidate : Meter := { m with candidateSamples := m.candidateSamples + 1 }
def addSeen : Meter := { m with reservoirSeen := m.reservoirSeen + 1 }
def addAccepted : Meter := { m with reservoirAccepted := m.reservoirAccepted + 1 }
def addRejected : Meter := { m with reservoirRejected := m.reservoirRejected + 1 }
def addHit : Meter := { m with hits := m.hits + 1 }
def addEviction : Meter := { m with evictions := m.evictions + 1 }
def addDropped : Meter := { m with dropped := m.dropped + 1 }

def read (reading : Option U64) : Option U64 := if m.memEvent = none then none else reading

/-- Moves one hardware range; out of bounds or on a failed call nothing moves. -/
def move (i : ℕ) (addr : U64) (len : ℕ) (ret : ℤ) : Meter × ℤ :=
  if i ≥ k.wpCapacity ∨ i ≥ m.cells.length then (m, -einval)
  else if ret = 0 then (m.updateCell i (Cell.watch ⟨addr, len, k.running && m.active⟩), 0)
  else (m, ret)

def clearCell (i : ℕ) : Meter := if i ≥ k.wpCapacity then m else m.updateCell i Cell.clear

def replacePass (rng : U64) : List Cell → List Cell × U64 × Option ℕ
  | [] => ([], rng, none)
  | x :: rest =>
      let samples := if x.samples ≠ 0 then x.samples else 1
      let r := rdNextRandom rng
      if r.1 % samples = 0 then (x.sampled :: rest, r.2, some 0)
      else
        let next := replacePass r.2 rest
        (x.sampled :: next.1, next.2.1, next.2.2.map (· + 1))

def pick : Meter × Option (ℕ × Bool) :=
  if k.wpCapacity = 0 then (m.addSeen, none)
  else
    match m.cells.findIdx? (fun x => x.state == .idle) with
    | some i => (m.addSeen.addAccepted, some (i, false))
    | none =>
        let pass := replacePass m.rng m.cells
        let m := { m.addSeen with cells := pass.1, rng := pass.2.1 }
        match pass.2.2 with
        | some i => (m.addAccepted, some (i, true))
        | none => (m.addRejected, none)

def countEviction (i : ℕ) (isReplacement : Bool) : Meter :=
  if isReplacement ∧ (m.cells[i]?.map Cell.state) = some .armed then
    m.addEviction
  else m

def settle (i : ℕ) (seedVa : U64) (accessSize : ℕ) (env : HitEnv) : Meter :=
  let idleAddr := (m.cells[i]?.map Cell.idleAddr).getD 0
  let mod := m.move k i seedVa accessSize env.modRet
  if mod.2 ≠ 0 then
    let m := clearCell k mod.1.addDropped i
    (m.move k i idleAddr idleWpLen env.idleRet).1
  else mod.1

def install (i : ℕ) (isReplacement : Bool) (target : Target) (targetIndex : ℕ)
    (seedVa seedAccess : U64) (env : HitEnv) : Meter :=
  let m := m.countEviction i isReplacement
  let m := m.updateCell i (Cell.arm target targetIndex seedVa seedAccess)
  m.settle k i seedVa target.decode.accessSize env

def bpHit (targetIndex : ℕ) (regs : Option PtRegs) (env : HitEnv) : Meter :=
  match regs, k.targets[targetIndex]? with
  | some regs, some target =>
      if m.active = false ∨ k.running = false then m
      else
        match m.read env.memAccess with
        | none => m
        | some seedAccess =>
            let m := m.addCandidate
            match m.pick k with
            | (m, none) => m
            | (m, some (i, isReplacement)) =>
                if i ≥ k.wpCapacity then m.addRejected
                else
                  m.install k i isReplacement target targetIndex
                    (rdComputeEffectiveAddress target.decode regs) seedAccess env
  | _, _ => m

def addBucket (x : Cell) (hitAccess : U64) : Meter :=
  let bucket := rdLog2Bucket (reuseDelta x.seedAccess hitAccess)
  let histIndex := x.targetIndex * log2Buckets + bucket
  if x.targetIndex < k.targets.length ∧ histIndex < k.targets.length * log2Buckets then
    { m with log2Hist := m.log2Hist.modify histIndex (· + 1) }
  else m

def retire (i : ℕ) (idleAddr : U64) (idleRet : ℤ) : Meter :=
  let m := if (m.cells[i]?.map Cell.state) = some .armed then m.clearCell k i else m
  (m.move k i idleAddr idleWpLen idleRet).1

def wpHit (i : ℕ) (env : HitEnv) : Meter :=
  if m.active = false ∨ k.running = false ∨ i ≥ k.wpCapacity then m
  else
    match m.cells[i]? with
    | none => m
    | some x =>
        if x.state ≠ .armed then m
        else if x.skipFirstHit then m.updateCell i Cell.skip
        else if x.targetIndex ≥ k.targets.length then
          retire k m.addDropped i x.idleAddr env.idleRet
        else
          let m :=
            match m.read env.memAccess with
            | some hitAccess => (m.addBucket k x hitAccess).addHit
            | none => m.addDropped
          retire k m i x.idleAddr env.idleRet

end Meter

section Refinement

variable (c : SessionCtl) (th : Thread)

theorem meter_updateSlot (i : ℕ) {f : Slot → Slot} {g : Cell → Cell}
    (h : ∀ s, (f s).toCell = g s.toCell) : (th.updateSlot i f).meter = th.meter.updateCell i g := by
  simp only [Thread.meter, Thread.updateSlot, Meter.updateCell, map_modify_of_comm h]

theorem meter_updateSlot_self (i : ℕ) {f : Slot → Slot} (h : ∀ s, (f s).toCell = s.toCell) :
    (th.updateSlot i f).meter = th.meter := by
  rw [meter_updateSlot th i (g := id) h]
  simp [Meter.updateCell]

theorem meter_captureChain (u : UserMem) (regs : Option PtRegs) :
    (captureChain c th u regs).1.meter = th.meter := by
  obtain ⟨_, _, he⟩ := captureChain_fst c th u regs
  rw [he]

theorem meter_rdCaptureDwarfSnapshot (u : UserMem) (regs : Option PtRegs) :
    (rdCaptureDwarfSnapshot c th u regs).1.meter = th.meter := by
  obtain ⟨_, he⟩ := rdCaptureDwarfSnapshot_fst c th u regs
  rw [he]

theorem meter_rdGetContextIdLocked (key : List U64) :
    (rdGetContextIdLocked th key).1.meter = th.meter := by
  unfold rdGetContextIdLocked
  split_ifs
  · rfl
  · split <;> rfl

theorem meter_rdAddPairHistLocked (key : PairKey) (bucket : ℕ) :
    (rdAddPairHistLocked th key bucket).meter = th.meter := by
  unfold rdAddPairHistLocked
  split_ifs
  · rfl
  · split <;> rfl

theorem meter_rdReserveDwarfEventLocked :
    (rdReserveDwarfEventLocked c th).1.meter = th.meter := by
  unfold rdReserveDwarfEventLocked
  split_ifs <;> rfl

theorem meter_rdModifySlot (i : ℕ) (addr : U64) (len : ℕ) (ret : ℤ) :
    th.meter.move c.meterCtl i addr len ret =
      ((rdModifySlot c th i addr len ret).1.meter, (rdModifySlot c th i addr len ret).2) := by
  simp only [rdModifySlot, Meter.move, List.length_map]
  split_ifs with hb hr
  · rfl
  · exact congrArg (·, (0 : ℤ)) (meter_updateSlot th i (fun _ => rfl)).symm
  · rfl

theorem meter_rdClearSlotMetadata (i : ℕ) :
    (rdClearSlotMetadata c th i).meter = th.meter.clearCell c.meterCtl i := by
  unfold rdClearSlotMetadata Meter.clearCell
  split_ifs with hi
  · rfl
  · exact meter_updateSlot th i (fun _ => rfl)

theorem map_replacePass (rng : U64) (slots : List Slot) :
    Meter.replacePass rng (slots.map Slot.toCell) =
      ((replacePass rng slots).1.map Slot.toCell, (replacePass rng slots).2) := by
  induction slots generalizing rng with
  | nil => rfl
  | cons s rest ih =>
      simp only [List.map_cons, Meter.replacePass, replacePass, ih]
      split_ifs <;> rfl

theorem meter_rdPickWpSlot :
    th.meter.pick c.meterCtl = ((rdPickWpSlot c th).1.meter, (rdPickWpSlot c th).2) := by
  have hidle : (th.slots.map Slot.toCell).findIdx? (fun x => x.state == .idle) =
      th.slots.findIdx? (fun s => s.state == .idle) := by
    rw [List.findIdx?_map]
    rfl
  simp only [rdPickWpSlot, Meter.pick, hidle, map_replacePass]
  split_ifs
  · rfl
  · cases th.slots.findIdx? (fun s => s.state == .idle) with
    | some i => rfl
    | none => cases (replacePass th.rng th.slots).2.2 <;> rfl

theorem meter_captureSeed (i : ℕ) (u : UserMem) (regs : PtRegs) :
    (captureSeed c th i u regs).meter = th.meter := by
  unfold captureSeed
  split_ifs
  · refine Eq.trans (meter_updateSlot_self _ i ?_) (meter_rdCaptureDwarfSnapshot c th u (some regs))
    intro s
    rfl
  · rfl

theorem meter_getElem?_map {β : Type} (i : ℕ) (f : Cell → β) :
    th.meter.cells[i]?.map f = th.slots[i]?.map fun s => f s.toCell := by
  simp [Function.comp_def]

theorem meter_countEviction (i : ℕ) (isReplacement : Bool) :
    (countEviction th i isReplacement).meter = th.meter.countEviction i isReplacement := by
  unfold countEviction Meter.countEviction
  rw [meter_getElem?_map]
  split_ifs <;> rfl

theorem meter_settleSeed (i : ℕ) (seedVa : U64) (accessSize : ℕ) (env : HitEnv) :
    (settleSeed c th i seedVa accessSize env).meter =
      th.meter.settle c.meterCtl i seedVa accessSize env := by
  simp only [settleSeed, Meter.settle, meter_rdModifySlot]
  split_ifs
  · have hc := meter_rdClearSlotMetadata c
      (rdModifySlot c th i seedVa accessSize env.modRet).1.addDropped i
    have hm := meter_rdModifySlot c (rdClearSlotMetadata c
      (rdModifySlot c th i seedVa accessSize env.modRet).1.addDropped i) i
      ((th.slots[i]?.map fun s => s.idleAddr).getD 0) idleWpLen env.idleRet
    have hidle := meter_getElem?_map th i Cell.idleAddr
    rw [hc] at hm
    rw [hidle]
    exact (congrArg Prod.fst hm).symm
  · rfl

theorem meter_installSeed (i : ℕ) (isReplacement : Bool) (target : Target) (targetIndex : ℕ)
    (seedVa seedAccess : U64) (contextId : ℕ) (regs : PtRegs) (env : HitEnv) :
    (installSeed c th i isReplacement target targetIndex seedVa seedAccess contextId regs env).meter =
      th.meter.install c.meterCtl i isReplacement target targetIndex seedVa seedAccess env := by
  unfold installSeed Meter.install
  dsimp only
  rw [meter_settleSeed, meter_captureSeed, ← meter_countEviction]
  congr 1
  exact meter_updateSlot _ i (fun _ => rfl)

theorem meter_contextOf (chain : List U64) : (contextOf c th chain).1.meter = th.meter := by
  unfold contextOf
  split_ifs
  · exact meter_rdGetContextIdLocked th chain
  · rfl

/-- A breakpoint hit acts on the meter of its thread by `Meter.bpHit`, whatever the callchain mode
adds to the thread. -/
theorem meter_rdHandleBpHit (targetIndex : ℕ) (regs : Option PtRegs) (env : HitEnv) :
    (rdHandleBpHit c th targetIndex regs env).meter =
      th.meter.bpHit c.meterCtl targetIndex regs env := by
  unfold rdHandleBpHit Meter.bpHit
  cases regs with
  | none => rfl
  | some r =>
      cases ht : c.targets[targetIndex]? with
      | none => rfl
      | some target =>
          by_cases hoff : th.active = false ∨ c.running = false
          · simp only [if_pos hoff]
          · simp only [if_neg hoff]
            have hread : th.meter.read env.memAccess = rdReadMemAccess th env.memAccess := rfl
            rw [hread]
            cases rdReadMemAccess th env.memAccess with
            | none => rfl
            | some seedAccess =>
                have hm : th.meter.addCandidate =
                    (captureChain c th env.user (some r)).1.addCandidate.meter :=
                  congrArg Meter.addCandidate (meter_captureChain c th env.user (some r)).symm
                simp only [hm, meter_rdPickWpSlot]
                obtain ⟨th', choice⟩ :=
                  rdPickWpSlot c (captureChain c th env.user (some r)).1.addCandidate
                rcases choice with _ | ⟨i, isReplacement⟩
                · rfl
                · dsimp only
                  split_ifs with hi
                  · rfl
                  · rw [meter_installSeed, meter_contextOf]

theorem meter_captureReuse (i : ℕ) (u : UserMem) (regs : Option PtRegs) :
    (captureReuse c th i u regs).1.meter = th.meter := by
  have hchain := meter_captureChain c th u regs
  unfold captureReuse
  dsimp only
  split_ifs
  · refine Eq.trans (meter_updateSlot_self _ i ?_)
      ((meter_rdCaptureDwarfSnapshot c _ u regs).trans hchain)
    intro s
    rfl
  · exact hchain

theorem meter_addBucket (slot : Slot) (hitAccess : U64) :
    (addBucket c th slot (rdLog2Bucket (reuseDelta slot.seedAccess hitAccess))).meter =
      th.meter.addBucket c.meterCtl slot.toCell hitAccess := by
  unfold addBucket Meter.addBucket
  dsimp only
  split_ifs <;> rfl

theorem meter_storeEvent (slot : Slot) (i : ℕ) (reusePc hitAccess : U64) (index : Option ℕ) :
    (storeEvent th slot i reusePc hitAccess index).meter = th.meter := by
  cases index <;> rfl

theorem meter_recordReuse (slot : Slot) (i : ℕ) (reusePc : U64) (chain : List U64)
    (hitAccess : U64) :
    (recordReuse c th slot i reusePc chain hitAccess).meter =
      (th.meter.addBucket c.meterCtl slot.toCell hitAccess).addHit := by
  unfold recordReuse
  dsimp only
  rw [meter_storeEvent]
  have hreserve : ∀ t : Thread, (if c.callchainMode = .dwarf then rdReserveDwarfEventLocked c t
      else (t, none)).1.meter = t.meter := by
    intro t
    split_ifs
    · exact meter_rdReserveDwarfEventLocked c t
    · rfl
  refine congrArg Meter.addHit (Eq.trans (hreserve _) ?_)
  rw [meter_rdAddPairHistLocked, meter_addBucket, meter_contextOf]

theorem meter_retireSlot (i : ℕ) (idleAddr : U64) (idleRet : ℤ) :
    (retireSlot c th i idleAddr idleRet).meter =
      th.meter.retire c.meterCtl i idleAddr idleRet := by
  unfold retireSlot Meter.retire
  dsimp only
  rw [meter_getElem?_map]
  split_ifs
  · rw [← meter_rdClearSlotMetadata, meter_rdModifySlot]
  · rw [meter_rdModifySlot]

/-- A watchpoint report acts on the meter of its thread by `Meter.wpHit`. -/
theorem meter_rdHandleWpHit (i : ℕ) (regs : Option PtRegs) (env : HitEnv) :
    (rdHandleWpHit c th i regs env).meter = th.meter.wpHit c.meterCtl i env := by
  unfold rdHandleWpHit Meter.wpHit
  split_ifs with hoff
  · rfl
  · rw [List.getElem?_map]
    cases th.slots[i]? with
    | none => rfl
    | some slot =>
        dsimp only [Option.map_some]
        split_ifs with hidle hskip htarget
        · rfl
        · exact meter_updateSlot th i (fun _ => rfl)
        · exact meter_retireSlot c th.addDropped i slot.idleAddr env.idleRet
        · have hcap := meter_captureReuse c th i env.user regs
          generalize captureReuse c th i env.user regs = cap at hcap
          have hread : th.meter.read env.memAccess = rdReadMemAccess cap.1 env.memAccess := by
            rw [← hcap]
            rfl
          rw [meter_retireSlot, hread]
          cases rdReadMemAccess cap.1 env.memAccess with
          | none => exact congrArg (fun m => Meter.retire c.meterCtl (Meter.addDropped m) i
              slot.idleAddr env.idleRet) hcap
          | some hitAccess => rw [meter_recordReuse, hcap]

/-- The cell and the counter value a watchpoint report records, if it records one. -/
def Meter.recorded (k : MeterCtl) (m : Meter) (i : ℕ) (env : HitEnv) : Option (Cell × U64) :=
  if m.active = false ∨ k.running = false ∨ i ≥ k.wpCapacity then none
  else
    match m.cells[i]? with
    | none => none
    | some x =>
        if x.state ≠ .armed then none
        else if x.skipFirstHit then none
        else if x.targetIndex ≥ k.targets.length then none
        else (m.read env.memAccess).map fun a => (x, a)

/-- Where a watchpoint report ends: ignored, skipped, dropped, or recorded. -/
theorem rdHandleWpHit_cases (i : ℕ) (regs : Option PtRegs) (env : HitEnv) :
    (th.meter.recorded c.meterCtl i env = none ∧
      (rdHandleWpHit c th i regs env = th ∨
        rdHandleWpHit c th i regs env = th.updateSlot i (Slot.mapCell Cell.skip) ∨
        ∃ slot th', i < c.wpCapacity ∧ th.slots[i]? = some slot ∧
          (th' = th ∨ th' = (captureReuse c th i env.user regs).1) ∧
          rdHandleWpHit c th i regs env =
            retireSlot c th'.addDropped i slot.idleAddr env.idleRet)) ∨
    ∃ slot a, i < c.wpCapacity ∧ th.slots[i]? = some slot ∧
      th.meter.recorded c.meterCtl i env = some (slot.toCell, a) ∧
      rdHandleWpHit c th i regs env =
        retireSlot c (recordReuse c (captureReuse c th i env.user regs).1 slot i
          ((regs.map PtRegs.pc).getD 0) (captureReuse c th i env.user regs).2 a) i slot.idleAddr
          env.idleRet := by
  unfold rdHandleWpHit Meter.recorded
  by_cases hoff : th.active = false ∨ c.running = false ∨ i ≥ c.wpCapacity
  · rw [if_pos hoff, if_pos hoff]
    exact Or.inl ⟨rfl, Or.inl rfl⟩
  have hi : i < c.wpCapacity := not_le.mp fun hge => hoff (Or.inr (Or.inr hge))
  rw [if_neg hoff, if_neg hoff, List.getElem?_map]
  cases hslot : th.slots[i]? with
  | none => exact Or.inl ⟨rfl, Or.inl rfl⟩
  | some slot =>
      dsimp only [Option.map_some]
      by_cases hidle : slot.state ≠ .armed
      · rw [if_pos hidle, if_pos hidle]
        exact Or.inl ⟨rfl, Or.inl rfl⟩
      rw [if_neg hidle, if_neg hidle]
      by_cases hskip : slot.skipFirstHit = true
      · rw [if_pos hskip, if_pos hskip]
        exact Or.inl ⟨rfl, Or.inr (Or.inl rfl)⟩
      rw [if_neg hskip, if_neg hskip]
      by_cases htarget : slot.targetIndex ≥ c.targetCount
      · rw [if_pos htarget, if_pos htarget]
        exact Or.inl ⟨rfl, Or.inr (Or.inr ⟨slot, th, hi, rfl, Or.inl rfl, rfl⟩)⟩
      rw [if_neg htarget, if_neg htarget]
      have hread : th.meter.read env.memAccess =
          rdReadMemAccess (captureReuse c th i env.user regs).1 env.memAccess := by
        rw [← meter_captureReuse c th i env.user regs]
        rfl
      rw [hread]
      cases rdReadMemAccess (captureReuse c th i env.user regs).1 env.memAccess with
      | none => exact Or.inl ⟨rfl, Or.inr (Or.inr ⟨slot, _, hi, rfl, Or.inr rfl, rfl⟩)⟩
      | some a => exact Or.inr ⟨slot, a, hi, rfl, rfl, rfl⟩

def Meter.hit (k : MeterCtl) (m : Meter) : Hit → Meter
  | .bp t regs env => m.bpHit k t regs env
  | .wp i _ env => m.wpHit k i env

theorem meter_hit (h : Hit) : (th.hit c h).meter = th.meter.hit c.meterCtl h := by
  cases h with
  | bp t regs env => exact meter_rdHandleBpHit c th t regs env
  | wp i regs env => exact meter_rdHandleWpHit c th i regs env

end Refinement
end RdSpeTool
