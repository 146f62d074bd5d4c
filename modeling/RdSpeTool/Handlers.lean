import RdSpeTool.ContextCapture

/-!
# The breakpoint and watchpoint handlers

`rdHandleBpHit` turns a sampled execute breakpoint into a candidate seed, `rdHandleWpHit` turns a
watchpoint report into a recorded reuse. Handlers of one thread run one after the other, so each
is a function on the thread state; debug output is left out.
-/

namespace RdSpeTool

/-- A generation number is never zero once the slot was used. -/
def nextGeneration (g : U32) : U32 := if g + 1 = 0 then 1 else g + 1

namespace Cell

def watch (e : PerfEvent) (x : Cell) : Cell := { x with wpEvent := e }

def clear (x : Cell) : Cell :=
  { x with
      state := .idle
      seedVa := 0
      seedAccess := 0
      seedPcOffset := 0
      accessSize := 0
      targetIndex := 0
      skipFirstHit := false
      samples := 1 }

def arm (target : Target) (targetIndex : ℕ) (seedVa seedAccess : U64) (x : Cell) : Cell :=
  { x with
      state := .armed
      seedVa := seedVa
      seedAccess := seedAccess
      seedPcOffset := target.pcOffset
      accessSize := target.decode.accessSize
      targetIndex := targetIndex
      generation := nextGeneration x.generation
      skipFirstHit := true
      samples := 1 }

/-- One more candidate seen by an armed slot; the count saturates. -/
def sampled (x : Cell) : Cell :=
  if x.samples ≠ BitVec.allOnes 64 then { x with samples := x.samples + 1 } else x

def skip (x : Cell) : Cell := { x with skipFirstHit := false }

end Cell

def Slot.mapCell (f : Cell → Cell) (s : Slot) : Slot := { s with toCell := f s.toCell }

def Slot.clear (s : Slot) : Slot :=
  { s with
      toCell := s.toCell.clear
      seedContextId := 0
      seedSnapshot := s.seedSnapshot.map fun _ => .zero }

def Slot.arm (target : Target) (targetIndex : ℕ) (seedVa seedAccess : U64) (contextId : ℕ)
    (s : Slot) : Slot :=
  { s with
      toCell := s.toCell.arm target targetIndex seedVa seedAccess
      seedContextId := contextId }

def rdReadMemAccess (th : Thread) (reading : Option U64) : Option U64 :=
  if th.memEvent = none then none else reading

/-- Moves the hardware watchpoint of one slot. `ret` is what `modify_user_hw_breakpoint` returns;
a failed call leaves the event as it was. -/
def rdModifySlot (c : SessionCtl) (th : Thread) (i : ℕ) (addr : U64) (len : ℕ) (ret : ℤ) :
    Thread × ℤ :=
  if i ≥ c.wpCapacity ∨ i ≥ th.slots.length then (th, -einval)
  else if ret = 0 then
    (th.updateSlot i (Slot.mapCell (Cell.watch ⟨addr, len, c.running && th.active⟩)), 0)
  else (th, ret)

def rdClearSlotMetadata (c : SessionCtl) (th : Thread) (i : ℕ) : Thread :=
  if i ≥ c.wpCapacity then th else th.updateSlot i Slot.clear

/-- The `1 / samples` replacement pass over armed slots: the slots with their sample counts, the
random state, and the first slot whose test succeeds. -/
def replacePass (rng : U64) : List Slot → List Slot × U64 × Option ℕ
  | [] => ([], rng, none)
  | s :: rest =>
      let samples := if s.samples ≠ 0 then s.samples else 1
      let r := rdNextRandom rng
      if r.1 % samples = 0 then (s.mapCell Cell.sampled :: rest, r.2, some 0)
      else
        let next := replacePass r.2 rest
        (s.mapCell Cell.sampled :: next.1, next.2.1, next.2.2.map (· + 1))

/-- The chosen slot and whether a seed in it is replaced; `none` rejects the candidate. -/
def rdPickWpSlot (c : SessionCtl) (th : Thread) : Thread × Option (ℕ × Bool) :=
  if c.wpCapacity = 0 then (th.addSeen, none)
  else
    match th.slots.findIdx? (fun s => s.state == .idle) with
    | some i => (th.addSeen.addAccepted, some (i, false))
    | none =>
        let pass := replacePass th.rng th.slots
        let th := { th.addSeen with slots := pass.1, rng := pass.2.1 }
        match pass.2.2 with
        | some i => (th.addAccepted, some (i, true))
        | none => (th.addRejected, none)

def captureChain (c : SessionCtl) (th : Thread) (u : UserMem) (regs : Option PtRegs) :
    Thread × List U64 :=
  if c.callchainMode = .fp then rdCaptureCallchain th u regs else (th, [])

/-- The context id of a captured chain; zero stands for no context. -/
def contextOf (c : SessionCtl) (th : Thread) (chain : List U64) : Thread × ℕ :=
  if c.callchainMode = .fp ∧ chain ≠ [] then rdGetContextIdLocked th chain else (th, 0)

/-- The seed-side snapshot, taken after the slot was armed. -/
def captureSeed (c : SessionCtl) (th : Thread) (i : ℕ) (u : UserMem) (regs : PtRegs) : Thread :=
  if c.callchainMode = .dwarf ∧ (th.slots[i]?.bind Slot.seedSnapshot).isSome then
    let cap := rdCaptureDwarfSnapshot c th u (some regs)
    cap.1.updateSlot i fun s => { s with seedSnapshot := some cap.2 }
  else th

def countEviction (th : Thread) (i : ℕ) (isReplacement : Bool) : Thread :=
  if isReplacement ∧ (th.slots[i]?.map fun s => s.state) = some .armed then
    th.addEviction
  else th

/-- Moves the watchpoint to an armed seed. A failed move drops the seed and parks the slot. -/
def settleSeed (c : SessionCtl) (th : Thread) (i : ℕ) (seedVa : U64) (accessSize : ℕ)
    (env : HitEnv) : Thread :=
  let idleAddr := (th.slots[i]?.map fun s => s.idleAddr).getD 0
  let mod := rdModifySlot c th i seedVa accessSize env.modRet
  if mod.2 ≠ 0 then
    let th := rdClearSlotMetadata c mod.1.addDropped i
    (rdModifySlot c th i idleAddr idleWpLen env.idleRet).1
  else mod.1

def installSeed (c : SessionCtl) (th : Thread) (i : ℕ) (isReplacement : Bool) (target : Target)
    (targetIndex : ℕ) (seedVa seedAccess : U64) (contextId : ℕ) (regs : PtRegs) (env : HitEnv) :
    Thread :=
  let th := countEviction th i isReplacement
  let th := th.updateSlot i (Slot.arm target targetIndex seedVa seedAccess contextId)
  let th := captureSeed c th i env.user regs
  settleSeed c th i seedVa target.decode.accessSize env

def rdHandleBpHit (c : SessionCtl) (th : Thread) (targetIndex : ℕ) (regs : Option PtRegs)
    (env : HitEnv) : Thread :=
  match regs, c.targets[targetIndex]? with
  | some regs, some target =>
      if th.active = false ∨ c.running = false then th
      else
        let seedVa := rdComputeEffectiveAddress target.decode regs
        match rdReadMemAccess th env.memAccess with
        | none => th
        | some seedAccess =>
            let chain := captureChain c th env.user (some regs)
            match rdPickWpSlot c chain.1.addCandidate with
            | (th, none) => th
            | (th, some (i, isReplacement)) =>
                if i ≥ c.wpCapacity then th.addRejected
                else
                  let ctx := contextOf c th chain.2
                  installSeed c ctx.1 i isReplacement target targetIndex seedVa seedAccess ctx.2
                    regs env
  | _, _ => th

def captureReuse (c : SessionCtl) (th : Thread) (i : ℕ) (u : UserMem) (regs : Option PtRegs) :
    Thread × List U64 :=
  let chain := captureChain c th u regs
  let th := chain.1
  if c.callchainMode = .dwarf ∧ (th.slots[i]?.bind Slot.reuseSnapshot).isSome then
    let cap := rdCaptureDwarfSnapshot c th u regs
    (cap.1.updateSlot i fun s => { s with reuseSnapshot := some cap.2 }, chain.2)
  else (th, chain.2)

def dwarfEventOf (th : Thread) (slot : Slot) (i index : ℕ) (reusePc hitAccess : U64) : DwarfEvent :=
  let seed := th.slots[i]?.bind Slot.seedSnapshot
  let reuse := th.slots[i]?.bind Slot.reuseSnapshot
  let delta := reuseDelta slot.seedAccess hitAccess
  { threadIndex := 0
    eventIndex := index
    used := true
    bucket := rdLog2Bucket delta
    tid := th.tid
    targetIndex := slot.targetIndex
    seedPcOffset := slot.seedPcOffset
    seedPc := (seed.map DwarfSnapshot.pc).getD 0
    reusePc := reusePc
    seedAccess := slot.seedAccess
    hitAccess := hitAccess
    delta := delta
    seed := seed.getD .zero
    reuse := reuse.getD .zero }

def addBucket (c : SessionCtl) (th : Thread) (slot : Slot) (bucket : ℕ) : Thread :=
  let histIndex := slot.targetIndex * log2Buckets + bucket
  if slot.targetIndex < c.targetCount ∧ histIndex < c.targetCount * log2Buckets then
    { th with log2Hist := th.log2Hist.modify histIndex (· + 1) }
  else th

def storeEvent (th : Thread) (slot : Slot) (i : ℕ) (reusePc hitAccess : U64) :
    Option ℕ → Thread
  | none => th
  | some index =>
      { th with
          dwarfEvents := th.dwarfEvents.map fun es =>
            es.set index (dwarfEventOf th slot i index reusePc hitAccess) }

def recordReuse (c : SessionCtl) (th : Thread) (slot : Slot) (i : ℕ) (reusePc : U64)
    (chain : List U64) (hitAccess : U64) : Thread :=
  let bucket := rdLog2Bucket (reuseDelta slot.seedAccess hitAccess)
  let ctx := contextOf c th chain
  let th := addBucket c ctx.1 slot bucket
  let th := rdAddPairHistLocked th ⟨slot.seedPcOffset, slot.seedContextId, reusePc, ctx.2⟩ bucket
  let reserved := if c.callchainMode = .dwarf then rdReserveDwarfEventLocked c th else (th, none)
  storeEvent reserved.1.addHit slot i reusePc hitAccess reserved.2

def retireSlot (c : SessionCtl) (th : Thread) (i : ℕ) (idleAddr : U64) (idleRet : ℤ) : Thread :=
  let th :=
    if (th.slots[i]?.map fun s => s.state) = some .armed then rdClearSlotMetadata c th i else th
  (rdModifySlot c th i idleAddr idleWpLen idleRet).1

def rdHandleWpHit (c : SessionCtl) (th : Thread) (i : ℕ) (regs : Option PtRegs) (env : HitEnv) :
    Thread :=
  if th.active = false ∨ c.running = false ∨ i ≥ c.wpCapacity then th
  else
    match th.slots[i]? with
    | none => th
    | some slot =>
        if slot.state ≠ .armed then th
        else if slot.skipFirstHit then th.updateSlot i (Slot.mapCell Cell.skip)
        else if slot.targetIndex ≥ c.targetCount then
          retireSlot c th.addDropped i slot.idleAddr env.idleRet
        else
          let reusePc := (regs.map PtRegs.pc).getD 0
          let cap := captureReuse c th i env.user regs
          let th := cap.1
          let th :=
            match rdReadMemAccess th env.memAccess with
            | some hitAccess => recordReuse c th slot i reusePc cap.2 hitAccess
            | none => th.addDropped
          retireSlot c th i slot.idleAddr env.idleRet

end RdSpeTool
