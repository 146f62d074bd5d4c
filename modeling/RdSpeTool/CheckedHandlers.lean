import RdSpeTool.Queries
import RdSpeTool.ThreadShape

/-!
# The handlers with checked array accesses

Handlers run in interrupt context and index their arrays without asking whether the arrays are that
long; the queries ask about their request only. Here every access asks, and one that is out of range
makes the whole call fail. On arrays of the sizes a session gives them no access fails, and every
call does what it does without the checks.
-/

namespace RdSpeTool

open ProbeTable

def readUpTo {α : Type} (l : List α) (n : ℕ) : Option (List α) :=
  if n ≤ l.length then some (l.take n) else none

def writeAt {α : Type} (l : List α) (i : ℕ) (f : α → α) : Option (List α) :=
  if i < l.length then some (l.modify i f) else none

def readRange {α : Type} (l : List α) (start n : ℕ) : Option (List α) :=
  if start + n ≤ l.length then some ((l.drop start).take n) else none

theorem readUpTo_eq {α : Type} {l : List α} {n : ℕ} (h : l.length = n) :
    readUpTo l n = some l := by
  rw [readUpTo, if_pos h.ge, List.take_of_length_le h.le]

theorem writeAt_eq {α : Type} {l : List α} {i : ℕ} (h : i < l.length) (f : α → α) :
    writeAt l i f = some (l.modify i f) := if_pos h

namespace Checked

variable (c : SessionCtl) (th : Thread)

def updateSlot (i : ℕ) (f : Slot → Slot) : Option Thread := do
  let slots ← writeAt th.slots i f
  return { th with slots := slots }

def rdModifySlot (i : ℕ) (addr : U64) (len : ℕ) (ret : ℤ) : Option (Thread × ℤ) :=
  if i ≥ c.wpCapacity then some (th, -einval)
  else do
    let _ ← th.slots[i]?
    if ret = 0 then
      let th ← updateSlot th i (Slot.mapCell (Cell.watch ⟨addr, len, c.running && th.active⟩))
      return (th, 0)
    else return (th, ret)

def rdClearSlotMetadata (i : ℕ) : Option Thread :=
  if i ≥ c.wpCapacity then some th else updateSlot th i Slot.clear

def rdPickWpSlot : Option (Thread × Option (ℕ × Bool)) :=
  if c.wpCapacity = 0 then some (th.addSeen, none)
  else do
    let slots ← readUpTo th.slots c.wpCapacity
    match slots.findIdx? (fun s => s.state == .idle) with
    | some i => return (th.addSeen.addAccepted, some (i, false))
    | none =>
        let pass := replacePass th.rng slots
        let th := { th.addSeen with slots := pass.1 ++ th.slots.drop c.wpCapacity, rng := pass.2.1 }
        match pass.2.2 with
        | some i => return (th.addAccepted, some (i, true))
        | none => return (th.addRejected, none)

def rdGetContextIdLocked (key : List U64) : Option (Thread × ℕ) :=
  if key = [] then some ({ th with contextDropped := th.contextDropped + 1 }, 0)
  else do
    let entries ← readUpTo th.contexts maxContexts
    match probe ContextEntry.used (fun e => e.ips == key) entries 0 none with
    | .found i => return (th, i + 1)
    | .free i =>
        let contexts ← writeAt th.contexts i fun _ => ⟨true, key⟩
        return ({ th with contexts := contexts, contextUsed := th.contextUsed + 1 }, i + 1)
    | .full => return ({ th with contextDropped := th.contextDropped + 1 }, 0)

def contextOf (chain : List U64) : Option (Thread × ℕ) :=
  if c.callchainMode = .fp ∧ chain ≠ [] then rdGetContextIdLocked th chain else some (th, 0)

def captureSeed (i : ℕ) (u : UserMem) (regs : PtRegs) : Option Thread :=
  if c.callchainMode = .dwarf then do
    let slot ← th.slots[i]?
    if slot.seedSnapshot.isSome then
      let cap := rdCaptureDwarfSnapshot c th u (some regs)
      updateSlot cap.1 i fun s => { s with seedSnapshot := some cap.2 }
    else return th
  else some th

def countEviction (i : ℕ) (isReplacement : Bool) : Option Thread :=
  if isReplacement then do
    let slot ← th.slots[i]?
    return if slot.state = .armed then th.addEviction else th
  else some th

def settleSeed (i : ℕ) (seedVa : U64) (accessSize : ℕ) (env : HitEnv) : Option Thread := do
  let slot ← th.slots[i]?
  let mod ← rdModifySlot c th i seedVa accessSize env.modRet
  if mod.2 ≠ 0 then
    let th ← rdClearSlotMetadata c mod.1.addDropped i
    let parked ← rdModifySlot c th i slot.idleAddr idleWpLen env.idleRet
    return parked.1
  else return mod.1

def installSeed (i : ℕ) (isReplacement : Bool) (target : Target) (targetIndex : ℕ)
    (seedVa seedAccess : U64) (contextId : ℕ) (regs : PtRegs) (env : HitEnv) : Option Thread := do
  let th ← countEviction th i isReplacement
  let th ← updateSlot th i (Slot.arm target targetIndex seedVa seedAccess contextId)
  let th ← captureSeed c th i env.user regs
  settleSeed c th i seedVa target.decode.accessSize env

def rdHandleBpHit (targetIndex : ℕ) (regs : Option PtRegs) (env : HitEnv) : Option Thread :=
  match regs with
  | none => some th
  | some regs =>
      if th.active = false ∨ c.running = false ∨ targetIndex ≥ c.targetCount then some th
      else do
        let target ← c.targets[targetIndex]?
        let seedVa := rdComputeEffectiveAddress target.decode regs
        match rdReadMemAccess th env.memAccess with
        | none => return th
        | some seedAccess =>
            let chain := captureChain c th env.user (some regs)
            let pick ← rdPickWpSlot c chain.1.addCandidate
            match pick with
            | (th, none) => return th
            | (th, some (i, isReplacement)) =>
                if i ≥ c.wpCapacity then return th.addRejected
                else
                  let ctx ← contextOf c th chain.2
                  installSeed c ctx.1 i isReplacement target targetIndex seedVa seedAccess ctx.2
                    regs env

def captureReuse (i : ℕ) (u : UserMem) (regs : Option PtRegs) : Option (Thread × List U64) :=
  let chain := captureChain c th u regs
  if c.callchainMode = .dwarf then do
    let slot ← chain.1.slots[i]?
    if slot.reuseSnapshot.isSome then
      let cap := rdCaptureDwarfSnapshot c chain.1 u regs
      let th ← updateSlot cap.1 i fun s => { s with reuseSnapshot := some cap.2 }
      return (th, chain.2)
    else return chain
  else some chain

def addBucket (slot : Slot) (bucket : ℕ) : Option Thread :=
  let histIndex := slot.targetIndex * log2Buckets + bucket
  if slot.targetIndex < c.targetCount ∧ histIndex < c.targetCount * log2Buckets then do
    let hist ← writeAt th.log2Hist histIndex (· + 1)
    return { th with log2Hist := hist }
  else some th

def rdAddPairHistLocked (k : PairKey) (bucket : ℕ) : Option Thread :=
  if k.reusePc = 0 ∨ bucket ≥ log2Buckets then
    some { th with pairHistDropped := th.pairHistDropped + 1 }
  else do
    let entries ← readUpTo th.pairHist maxPairHists
    match probe PairHistEntry.used (fun e => e.key == k) entries 0 none with
    | .found i =>
        let entry ← th.pairHist[i]?
        let buckets ← writeAt entry.buckets bucket (· + 1)
        let pairHist ← writeAt th.pairHist i fun e => { e with buckets := buckets }
        return { th with pairHist := pairHist }
    | .free i =>
        let entry ← th.pairHist[i]?
        let buckets ← writeAt entry.buckets bucket fun _ => 1
        let pairHist ← writeAt th.pairHist i fun _ =>
          ⟨true, k.seedContextId, k.reuseContextId, k.seedPcOffset, k.reusePc, buckets⟩
        return { th with pairHist := pairHist, pairHistUsed := th.pairHistUsed + 1 }
    | .full => return { th with pairHistDropped := th.pairHistDropped + 1 }

def storeEvent (slot : Slot) (i : ℕ) (reusePc hitAccess : U64) : Option ℕ → Option Thread
  | none => some th
  | some index => do
      let events ← th.dwarfEvents
      let _ ← th.slots[i]?
      let events ← writeAt events index fun _ => dwarfEventOf th slot i index reusePc hitAccess
      return { th with dwarfEvents := some events }

def recordReuse (slot : Slot) (i : ℕ) (reusePc : U64) (chain : List U64) (hitAccess : U64) :
    Option Thread := do
  let bucket := rdLog2Bucket (reuseDelta slot.seedAccess hitAccess)
  let ctx ← contextOf c th chain
  let th ← addBucket c ctx.1 slot bucket
  let th ← rdAddPairHistLocked th ⟨slot.seedPcOffset, slot.seedContextId, reusePc, ctx.2⟩ bucket
  let reserved := if c.callchainMode = .dwarf then rdReserveDwarfEventLocked c th else (th, none)
  storeEvent reserved.1.addHit slot i reusePc hitAccess reserved.2

def retireSlot (i : ℕ) (idleAddr : U64) (idleRet : ℤ) : Option Thread := do
  let slot ← th.slots[i]?
  let th ← if slot.state = .armed then rdClearSlotMetadata c th i else some th
  let parked ← rdModifySlot c th i idleAddr idleWpLen idleRet
  return parked.1

def rdHandleWpHit (i : ℕ) (regs : Option PtRegs) (env : HitEnv) : Option Thread :=
  if th.active = false ∨ c.running = false ∨ i ≥ c.wpCapacity then some th
  else do
    let slot ← th.slots[i]?
    if slot.state ≠ .armed then return th
    else if slot.skipFirstHit then updateSlot th i (Slot.mapCell Cell.skip)
    else if slot.targetIndex ≥ c.targetCount then
      retireSlot c th.addDropped i slot.idleAddr env.idleRet
    else
      let cap ← captureReuse c th i env.user regs
      match rdReadMemAccess cap.1 env.memAccess with
      | some hitAccess =>
          let th ← recordReuse c cap.1 slot i ((regs.map PtRegs.pc).getD 0) cap.2 hitAccess
          retireSlot c th i slot.idleAddr env.idleRet
      | none => retireSlot c cap.1.addDropped i slot.idleAddr env.idleRet

/-- The search for an event passes over inactive threads. -/
def search {α : Type} (events : List α) (n : ℕ) : Option Unit :=
  if th.active then (readUpTo events n).map fun _ => () else some ()

def hit : Hit → Option Thread
  | .bp t regs env => do
      search th th.bpEvents c.targetCount
      rdHandleBpHit c th t regs env
  | .wp i regs env => do
      search th th.slots c.wpCapacity
      rdHandleWpHit c th i regs env

/-! ## Queries -/

def queryThread {α : Type} (s : Session) (u : UserCopy) (index : ℕ)
    (f : Thread → Option (Except ℤ α)) : Option (Except ℤ α) :=
  if u.fromUser = false then some (.error (-efault))
  else
    match rdFindThreadByIndex s index with
    | none => some (.error (-enoent))
    | some th => (f th).map fun reply =>
        reply.bind fun req => if u.toUser then .ok req else .error (-efault)

def rdGetHistLocked (s : Session) (u : UserCopy) (threadIndex targetIndex : ℕ) :
    Option (Except ℤ HistReq) :=
  queryThread s u threadIndex fun th =>
    if targetIndex ≥ s.targetCount then some (.error (-einval))
    else if th.log2Hist = [] then
      some (.ok ⟨threadIndex, targetIndex, List.replicate log2Buckets 0⟩)
    else
      (readRange th.log2Hist (targetIndex * log2Buckets) log2Buckets).map fun buckets =>
        .ok ⟨threadIndex, targetIndex, buckets⟩

def rdGetPairHistLocked (s : Session) (u : UserCopy) (threadIndex entryIndex : ℕ) :
    Option (Except ℤ PairHistReq) :=
  queryThread s u threadIndex fun th =>
    if entryIndex ≥ maxPairHists then some (.error (-einval))
    else
      th.pairHist[entryIndex]?.map fun e =>
        if e.used then .ok ⟨threadIndex, entryIndex, true, e.seedContextId, e.reuseContextId,
          e.seedPcOffset, e.reusePc, e.buckets⟩
        else .ok ⟨threadIndex, entryIndex, false, 0, 0, 0, 0, List.replicate log2Buckets 0⟩

def rdGetContextLocked (s : Session) (u : UserCopy) (threadIndex contextId : ℕ) :
    Option (Except ℤ ContextReq) :=
  queryThread s u threadIndex fun th =>
    if contextId = 0 ∨ contextId > maxContexts then some (.error (-einval))
    else
      th.contexts[contextId - 1]?.map fun e =>
        if e.used then .ok ⟨threadIndex, contextId, true, e.ips⟩
        else .ok ⟨threadIndex, contextId, false, []⟩

def rdGetDwarfEventLocked (s : Session) (u : UserCopy) (allocOk : Bool)
    (threadIndex eventIndex : ℕ) : Option (Except ℤ DwarfEvent) :=
  queryThread s u threadIndex fun th =>
    if eventIndex ≥ s.dwarfEventCapacity then some (.error (-einval))
    else if allocOk = false then some (.error (-enomem))
    else
      match th.dwarfEvents with
      | none => some (.ok { DwarfEvent.zero with threadIndex := threadIndex, eventIndex := eventIndex })
      | some es => es[eventIndex]?.map fun e =>
          if e.used then .ok { e with threadIndex := threadIndex, eventIndex := eventIndex }
          else .ok { DwarfEvent.zero with threadIndex := threadIndex, eventIndex := eventIndex }

end Checked

/-! ## No access fails -/

/-- The arrays of an active thread have the sizes that the session says. -/
structure ArraysFit (c : SessionCtl) (th : Thread) : Prop where
  slots : th.slots.length = c.wpCapacity
  bpEvents : th.bpEvents.length = c.targetCount
  log2Hist : th.log2Hist.length = c.targetCount * log2Buckets
  pairHist : th.pairHist.map (fun e => e.buckets.length) = List.replicate maxPairHists log2Buckets
  contexts : th.contexts.length = maxContexts
  dwarfEvents : th.dwarfEvents.map List.length =
    if c.callchainMode = .dwarf then some c.dwarfEventCapacity else none

namespace ArraysFit

variable {c : SessionCtl} {th : Thread}

theorem of_frame {th' : Thread} (h : ArraysFit c th) (hf : th'.frame = th.frame) :
    ArraysFit c th' := by
  rw [Frame.mk.injEq] at hf
  obtain ⟨-, -, -, -, -, -, -, hbp, hslots, hhist, hpair, hcontexts, hdwarf⟩ := hf
  have hlen := congrArg List.length hslots
  rw [List.length_map, List.length_map] at hlen
  exact ⟨hlen.trans h.slots, (congrArg List.length hbp).trans h.bpEvents, hhist.trans h.log2Hist,
    hpair.trans h.pairHist, hcontexts.trans h.contexts, hdwarf.trans h.dwarfEvents⟩

theorem slot_lt (h : ArraysFit c th) {i : ℕ} (hi : i < c.wpCapacity) : i < th.slots.length :=
  h.slots.symm ▸ hi

theorem buckets_length (h : ArraysFit c th) {i : ℕ} {e : PairHistEntry}
    (he : th.pairHist[i]? = some e) : e.buckets.length = log2Buckets := by
  have hsize : e.buckets.length ∈ th.pairHist.map fun e => e.buckets.length :=
    List.mem_map_of_mem (List.mem_of_getElem? he)
  rw [h.pairHist] at hsize
  exact List.eq_of_mem_replicate hsize

theorem pairHist_length (h : ArraysFit c th) : th.pairHist.length = maxPairHists := by
  simpa using congrArg List.length h.pairHist

theorem updateSlot (h : ArraysFit c th) {i : ℕ} (hi : i < c.wpCapacity) (f : Slot → Slot) :
    Checked.updateSlot th i f = some (th.updateSlot i f) := by
  unfold Checked.updateSlot
  rw [writeAt_eq (h.slot_lt hi)]
  rfl

theorem rdModifySlot (h : ArraysFit c th) (i : ℕ) (addr : U64) (len : ℕ) (ret : ℤ) :
    Checked.rdModifySlot c th i addr len ret = some (rdModifySlot c th i addr len ret) := by
  unfold Checked.rdModifySlot RdSpeTool.rdModifySlot
  by_cases hi : i ≥ c.wpCapacity
  · rw [if_pos hi, if_pos (Or.inl hi)]
  · have hlt := h.slot_lt (not_le.mp hi)
    have hin : ¬(i ≥ c.wpCapacity ∨ i ≥ th.slots.length) := not_or.mpr ⟨hi, not_le.mpr hlt⟩
    rw [if_neg hi, if_neg hin, List.getElem?_eq_getElem hlt, Option.bind_eq_bind, Option.bind_some]
    split_ifs
    · rw [h.updateSlot (not_le.mp hi)]
      rfl
    · rfl

theorem rdClearSlotMetadata (h : ArraysFit c th) (i : ℕ) :
    Checked.rdClearSlotMetadata c th i = some (rdClearSlotMetadata c th i) := by
  unfold Checked.rdClearSlotMetadata RdSpeTool.rdClearSlotMetadata
  split_ifs with hi
  · rfl
  · exact h.updateSlot (not_le.mp hi) Slot.clear

theorem rdPickWpSlot (h : ArraysFit c th) :
    Checked.rdPickWpSlot c th = some (rdPickWpSlot c th) := by
  unfold Checked.rdPickWpSlot RdSpeTool.rdPickWpSlot
  split_ifs with hzero
  · rfl
  · rw [readUpTo_eq h.slots, Option.bind_eq_bind, Option.bind_some]
    cases th.slots.findIdx? (fun s => s.state == .idle) with
    | some i => rfl
    | none =>
        dsimp only
        rw [List.drop_of_length_le h.slots.le, List.append_nil]
        cases (replacePass th.rng th.slots).2.2 <;> rfl

theorem rdGetContextIdLocked (h : ArraysFit c th) (key : List U64) :
    Checked.rdGetContextIdLocked th key = some (rdGetContextIdLocked th key) := by
  unfold Checked.rdGetContextIdLocked RdSpeTool.rdGetContextIdLocked
  split_ifs with hkey
  · rfl
  · rw [readUpTo_eq h.contexts, Option.bind_eq_bind, Option.bind_some]
    cases hp : probe ContextEntry.used (fun e => e.ips == key) th.contexts 0 none with
    | found i => rfl
    | full => rfl
    | free i =>
        obtain ⟨k, e, rfl, he, -⟩ := probe_free hp
        have hlt := (List.getElem?_eq_some_iff.mp he).1
        dsimp only
        rw [writeAt_eq (by omega)]
        rfl

theorem contextOf (h : ArraysFit c th) (chain : List U64) :
    Checked.contextOf c th chain = some (contextOf c th chain) := by
  unfold Checked.contextOf RdSpeTool.contextOf
  split_ifs
  · exact h.rdGetContextIdLocked chain
  · rfl

theorem captureSeed (h : ArraysFit c th) {i : ℕ} (hi : i < c.wpCapacity) (u : UserMem)
    (regs : PtRegs) : Checked.captureSeed c th i u regs = some (captureSeed c th i u regs) := by
  have hcap : ArraysFit c (rdCaptureDwarfSnapshot c th u (some regs)).1 :=
    h.of_frame (frame_rdCaptureDwarfSnapshot ..)
  unfold Checked.captureSeed RdSpeTool.captureSeed
  by_cases hmode : c.callchainMode = .dwarf
  · rw [if_pos hmode, List.getElem?_eq_getElem (h.slot_lt hi)]
    simp only [Option.bind_eq_bind, Option.bind_some, hmode, true_and]
    split_ifs
    · exact hcap.updateSlot hi _
    · rfl
  · rw [if_neg hmode, if_neg fun hboth => hmode hboth.1]

theorem countEviction (h : ArraysFit c th) {i : ℕ} (hi : i < c.wpCapacity) (isReplacement : Bool) :
    Checked.countEviction th i isReplacement = some (countEviction th i isReplacement) := by
  unfold Checked.countEviction RdSpeTool.countEviction
  rw [List.getElem?_eq_getElem (h.slot_lt hi)]
  cases isReplacement with
  | false => rfl
  | true => simp

theorem settleSeed (h : ArraysFit c th) {i : ℕ} (hi : i < c.wpCapacity) (seedVa : U64)
    (accessSize : ℕ) (env : HitEnv) :
    Checked.settleSeed c th i seedVa accessSize env =
      some (settleSeed c th i seedVa accessSize env) := by
  unfold Checked.settleSeed RdSpeTool.settleSeed
  rw [List.getElem?_eq_getElem (h.slot_lt hi)]
  simp only [Option.bind_eq_bind, Option.bind_some, h.rdModifySlot, Option.map_some,
    Option.getD_some]
  have hmod : ArraysFit c (RdSpeTool.rdModifySlot c th i seedVa accessSize env.modRet).1 :=
    h.of_frame (frame_rdModifySlot ..)
  generalize RdSpeTool.rdModifySlot c th i seedVa accessSize env.modRet = mod at hmod
  split_ifs
  · have hdropped : ArraysFit c mod.1.addDropped := hmod.of_frame rfl
    have hclear : ArraysFit c (RdSpeTool.rdClearSlotMetadata c mod.1.addDropped i) :=
      hdropped.of_frame (frame_rdClearSlotMetadata ..)
    rw [hdropped.rdClearSlotMetadata, Option.bind_some, hclear.rdModifySlot]
    rfl
  · rfl

theorem installSeed (h : ArraysFit c th) {i : ℕ} (hi : i < c.wpCapacity) (isReplacement : Bool)
    (target : Target) (targetIndex : ℕ) (seedVa seedAccess : U64) (contextId : ℕ) (regs : PtRegs)
    (env : HitEnv) :
    Checked.installSeed c th i isReplacement target targetIndex seedVa seedAccess contextId regs
        env = some (installSeed c th i isReplacement target targetIndex seedVa seedAccess
          contextId regs env) := by
  have hevict : ArraysFit c (RdSpeTool.countEviction th i isReplacement) := by
    apply h.of_frame
    unfold RdSpeTool.countEviction
    split_ifs <;> rfl
  have harm : ArraysFit c ((RdSpeTool.countEviction th i isReplacement).updateSlot i
      (Slot.arm target targetIndex seedVa seedAccess contextId)) :=
    hevict.of_frame (frame_updateSlot _ i fun _ _ => rfl)
  have hseed := harm.of_frame (frame_captureSeed c _ i env.user regs)
  unfold Checked.installSeed RdSpeTool.installSeed
  simp only [Option.bind_eq_bind]
  rw [h.countEviction hi, Option.bind_some, hevict.updateSlot hi, Option.bind_some,
    harm.captureSeed hi, Option.bind_some, hseed.settleSeed hi]

theorem rdHandleBpHit (h : ArraysFit c th) (targetIndex : ℕ) (regs : Option PtRegs)
    (env : HitEnv) : Checked.rdHandleBpHit c th targetIndex regs env =
      some (rdHandleBpHit c th targetIndex regs env) := by
  unfold Checked.rdHandleBpHit RdSpeTool.rdHandleBpHit
  cases regs with
  | none => rfl
  | some r =>
      dsimp only
      by_cases ht : targetIndex ≥ c.targetCount
      · rw [if_pos (Or.inr (Or.inr ht)), List.getElem?_eq_none ht]
      rw [List.getElem?_eq_getElem (not_le.mp ht)]
      dsimp only
      by_cases hoff : th.active = false ∨ c.running = false
      · rw [if_pos hoff, if_pos (hoff.imp_right Or.inl)]
      rw [if_neg hoff, if_neg (by tauto), Option.bind_eq_bind, Option.bind_some]
      cases rdReadMemAccess th env.memAccess with
      | none => rfl
      | some seedAccess =>
          have hchain : ArraysFit c (captureChain c th env.user (some r)).1.addCandidate :=
            h.of_frame (frame_captureChain c th env.user (some r))
          have hpick := hchain.of_frame (frame_rdPickWpSlot c _)
          dsimp only
          rw [hchain.rdPickWpSlot, Option.bind_eq_bind, Option.bind_some]
          generalize RdSpeTool.rdPickWpSlot c (captureChain c th env.user (some r)).1.addCandidate =
            picked at hpick
          obtain ⟨th', choice⟩ := picked
          rcases choice with _ | ⟨i, isReplacement⟩
          · rfl
          · dsimp only
            split_ifs with hi
            · rfl
            · rw [hpick.contextOf, Option.bind_eq_bind, Option.bind_some]
              exact (hpick.of_frame (frame_contextOf ..)).installSeed (not_le.mp hi) ..

theorem captureReuse (h : ArraysFit c th) {i : ℕ} (hi : i < c.wpCapacity) (u : UserMem)
    (regs : Option PtRegs) :
    Checked.captureReuse c th i u regs = some (captureReuse c th i u regs) := by
  have hchain : ArraysFit c (captureChain c th u regs).1 := h.of_frame (frame_captureChain ..)
  have hcap : ArraysFit c (rdCaptureDwarfSnapshot c (captureChain c th u regs).1 u regs).1 :=
    hchain.of_frame (frame_rdCaptureDwarfSnapshot ..)
  unfold Checked.captureReuse RdSpeTool.captureReuse
  dsimp only
  by_cases hmode : c.callchainMode = .dwarf
  · rw [if_pos hmode, List.getElem?_eq_getElem (hchain.slot_lt hi)]
    simp only [Option.bind_eq_bind, Option.bind_some, hmode, true_and]
    split_ifs
    · rw [hcap.updateSlot hi]
      rfl
    · rfl
  · rw [if_neg hmode, if_neg fun hboth => hmode hboth.1]

theorem addBucket (h : ArraysFit c th) (slot : Slot) (bucket : ℕ) :
    Checked.addBucket c th slot bucket = some (addBucket c th slot bucket) := by
  unfold Checked.addBucket RdSpeTool.addBucket
  dsimp only
  split_ifs with hidx
  · rw [writeAt_eq (h.log2Hist.symm ▸ hidx.2)]
    rfl
  · rfl

theorem rdAddPairHistLocked (h : ArraysFit c th) (k : PairKey) (bucket : ℕ) :
    Checked.rdAddPairHistLocked th k bucket = some (rdAddPairHistLocked th k bucket) := by
  unfold Checked.rdAddPairHistLocked RdSpeTool.rdAddPairHistLocked
  split_ifs with hskip
  · rfl
  have hb : bucket < log2Buckets := by omega
  rw [readUpTo_eq h.pairHist_length, Option.bind_eq_bind, Option.bind_some]
  have hwrite : ∀ {i : ℕ} {e : PairHistEntry}, th.pairHist[i]? = some e →
      i < th.pairHist.length ∧ bucket < e.buckets.length := by
    intro i e he
    exact ⟨(List.getElem?_eq_some_iff.mp he).1, (h.buckets_length he).symm ▸ hb⟩
  cases hp : probe PairHistEntry.used (fun e => e.key == k) th.pairHist 0 none with
  | full => rfl
  | found i =>
      obtain ⟨n, e, hn, he, -⟩ := probe_found hp
      obtain rfl : i = n := by omega
      obtain ⟨hlt, hblt⟩ := hwrite he
      simp only [Option.bind_eq_bind, he, Option.bind_some, writeAt_eq hblt, writeAt_eq hlt]
      have hmodify : th.pairHist.modify i (fun e' => { e' with
          buckets := e.buckets.modify bucket (· + 1) }) =
            th.pairHist.modify i (PairHistEntry.bump bucket) := modify_congr _ he rfl
      rw [hmodify]
      rfl
  | free i =>
      obtain ⟨n, e, hn, he, -⟩ := probe_free hp
      obtain rfl : i = n := by omega
      obtain ⟨hlt, hblt⟩ := hwrite he
      simp only [Option.bind_eq_bind, he, Option.bind_some, writeAt_eq hblt, writeAt_eq hlt]
      have hmodify : th.pairHist.modify i (fun _ => ⟨true, k.seedContextId, k.reuseContextId,
          k.seedPcOffset, k.reusePc, e.buckets.modify bucket fun _ => 1⟩) =
            th.pairHist.modify i (PairHistEntry.claim k bucket) := by
        apply modify_congr _ he
        rw [← List.set_eq_modify]
        rfl
      rw [hmodify]
      rfl

theorem storeEvent (h : ArraysFit c th) {i : ℕ} (hi : i < c.wpCapacity) (slot : Slot)
    (reusePc hitAccess : U64) {index : Option ℕ}
    (hindex : ∀ n, index = some n → ∃ es, th.dwarfEvents = some es ∧ n < es.length) :
    Checked.storeEvent th slot i reusePc hitAccess index =
      some (storeEvent th slot i reusePc hitAccess index) := by
  cases index with
  | none => rfl
  | some n =>
      obtain ⟨es, hes, hn⟩ := hindex n rfl
      unfold Checked.storeEvent RdSpeTool.storeEvent
      simp only [Option.bind_eq_bind, hes, Option.bind_some, List.getElem?_eq_getElem (h.slot_lt hi),
        writeAt_eq hn, Option.map_some, List.set_eq_modify]
      rfl

/-- A reserved index is inside the event array. -/
theorem reserved_lt (h : ArraysFit c th) {n : ℕ}
    (hn : (rdReserveDwarfEventLocked c th).2 = some n) :
    ∃ es, (rdReserveDwarfEventLocked c th).1.addHit.dwarfEvents = some es ∧ n < es.length := by
  unfold rdReserveDwarfEventLocked at hn ⊢
  split_ifs at hn ⊢ with hoff hfull
  obtain rfl := Option.some.inj hn
  obtain ⟨es, hes⟩ := Option.ne_none_iff_exists'.mp (not_or.mp (not_or.mp hoff).2).1
  have hsize := h.dwarfEvents
  rw [hes, if_pos (not_not.mp (not_or.mp hoff).1)] at hsize
  refine ⟨es, hes, ?_⟩
  rw [Option.some.inj hsize]
  exact not_le.mp hfull

theorem recordReuse (h : ArraysFit c th) {i : ℕ} (hi : i < c.wpCapacity) (slot : Slot)
    (reusePc : U64) (chain : List U64) (hitAccess : U64) :
    Checked.recordReuse c th slot i reusePc chain hitAccess =
      some (recordReuse c th slot i reusePc chain hitAccess) := by
  have hctx := h.of_frame (frame_contextOf c th chain)
  have hbucket := hctx.of_frame (frame_addBucket c _ slot
    (rdLog2Bucket (reuseDelta slot.seedAccess hitAccess)))
  unfold Checked.recordReuse RdSpeTool.recordReuse
  simp only [Option.bind_eq_bind]
  rw [h.contextOf, Option.bind_some, hctx.addBucket, Option.bind_some, hbucket.rdAddPairHistLocked,
    Option.bind_some]
  have hpair := hbucket.of_frame (frame_rdAddPairHistLocked _ ⟨slot.seedPcOffset,
    slot.seedContextId, reusePc, (RdSpeTool.contextOf c th chain).2⟩
    (rdLog2Bucket (reuseDelta slot.seedAccess hitAccess)))
  generalize RdSpeTool.rdAddPairHistLocked _ _ _ = pair at hpair
  by_cases hmode : c.callchainMode = .dwarf
  · rw [if_pos hmode]
    have hreserved : ArraysFit c (rdReserveDwarfEventLocked c pair).1.addHit :=
      hpair.of_frame (frame_rdReserveDwarfEventLocked c pair)
    exact hreserved.storeEvent hi slot reusePc hitAccess fun n hn => hpair.reserved_lt hn
  · rw [if_neg hmode]
    rfl

theorem retireSlot (h : ArraysFit c th) {i : ℕ} (hi : i < c.wpCapacity) (idleAddr : U64)
    (idleRet : ℤ) :
    Checked.retireSlot c th i idleAddr idleRet = some (retireSlot c th i idleAddr idleRet) := by
  unfold Checked.retireSlot RdSpeTool.retireSlot
  rw [List.getElem?_eq_getElem (h.slot_lt hi)]
  simp only [Option.bind_eq_bind, Option.bind_some, Option.map_some, Option.some.injEq]
  split_ifs
  · have hclear : ArraysFit c (RdSpeTool.rdClearSlotMetadata c th i) :=
      h.of_frame (frame_rdClearSlotMetadata ..)
    rw [h.rdClearSlotMetadata, Option.bind_some, hclear.rdModifySlot]
    rfl
  · rw [h.rdModifySlot]
    rfl

theorem rdHandleWpHit (h : ArraysFit c th) (i : ℕ) (regs : Option PtRegs) (env : HitEnv) :
    Checked.rdHandleWpHit c th i regs env = some (rdHandleWpHit c th i regs env) := by
  unfold Checked.rdHandleWpHit RdSpeTool.rdHandleWpHit
  by_cases hoff : th.active = false ∨ c.running = false ∨ i ≥ c.wpCapacity
  · rw [if_pos hoff, if_pos hoff]
  have hi : i < c.wpCapacity := not_le.mp fun hge => hoff (Or.inr (Or.inr hge))
  rw [if_neg hoff, if_neg hoff, List.getElem?_eq_getElem (h.slot_lt hi), Option.bind_eq_bind,
    Option.bind_some]
  dsimp only
  split_ifs
  · rfl
  · exact h.updateSlot hi _
  · exact (h.of_frame (rfl : th.addDropped.frame = th.frame)).retireSlot hi ..
  · have hcap := h.of_frame (frame_captureReuse c th i env.user regs)
    rw [h.captureReuse hi, Option.bind_eq_bind, Option.bind_some]
    cases rdReadMemAccess (RdSpeTool.captureReuse c th i env.user regs).1 env.memAccess with
    | none =>
        have hdropped : ∀ t : Thread, t.addDropped.frame = t.frame := fun _ => rfl
        exact (hcap.of_frame (hdropped _)).retireSlot hi ..
    | some hitAccess =>
        dsimp only
        rw [hcap.recordReuse hi, Option.bind_eq_bind, Option.bind_some]
        exact (hcap.of_frame (frame_recordReuse ..)).retireSlot hi ..

/-- On arrays of the right sizes a hit does with the checks what it does without them. -/
theorem hit (h : ArraysFit c th) (ht : Hit) : Checked.hit c th ht = some (th.hit c ht) := by
  have hsearch : ∀ {α : Type} {events : List α} {n : ℕ}, events.length = n →
      Checked.search th events n = some () := by
    intro α events n hn
    unfold Checked.search
    rw [readUpTo_eq hn]
    exact ite_self _
  unfold Checked.hit
  rw [hsearch h.bpEvents, hsearch h.slots]
  cases ht with
  | bp t regs env => exact h.rdHandleBpHit t regs env
  | wp i regs env => exact h.rdHandleWpHit i regs env

end ArraysFit

theorem Shaped.arraysFit {c : SessionCtl} {th : Thread} (h : Shaped c th)
    (ha : th.active = true) : ArraysFit c th := by
  obtain ⟨arg, hf⟩ := h.of_live ha
  have hbp := congrArg (fun f : Frame => f.bpEvents.length) hf
  obtain ⟨hhist, hpair, hcontexts, hdwarf⟩ := h.tables
  refine ⟨h.slots_length ha, ?_, hhist, hpair, hcontexts, hdwarf⟩
  simpa [newThread_eq, setupThread, Thread.setEvents] using hbp

/-- An inactive thread has no event to hit, and its handlers return at once. -/
theorem Checked.hit_of_inactive (c : SessionCtl) {th : Thread} (ha : th.active = false)
    (ht : Hit) : Checked.hit c th ht = some (th.hit c ht) := by
  have hsearch : ∀ {α : Type} (events : List α) (n : ℕ), Checked.search th events n = some () := by
    intro α events n
    unfold Checked.search
    rw [ha]
    rfl
  unfold Checked.hit
  rw [hsearch, hsearch]
  cases ht with
  | bp t regs env =>
      change Checked.rdHandleBpHit c th t regs env = some (RdSpeTool.rdHandleBpHit c th t regs env)
      unfold Checked.rdHandleBpHit RdSpeTool.rdHandleBpHit
      cases regs with
      | none => rfl
      | some r =>
          dsimp only
          rw [if_pos (Or.inl ha)]
          cases c.targets[t]? with
          | none => rfl
          | some target =>
              dsimp only
              rw [if_pos (Or.inl ha)]
  | wp i regs env =>
      change Checked.rdHandleWpHit c th i regs env = some (RdSpeTool.rdHandleWpHit c th i regs env)
      unfold Checked.rdHandleWpHit RdSpeTool.rdHandleWpHit
      rw [if_pos (Or.inl ha), if_pos (Or.inl ha)]

theorem Shaped.checkedHit {c : SessionCtl} {th : Thread} (h : Shaped c th) (ht : Hit) :
    Checked.hit c th ht = some (th.hit c ht) := by
  cases ha : th.active with
  | true => exact (h.arraysFit ha).hit ht
  | false => exact Checked.hit_of_inactive c ha ht

/-! ## No query fails -/

theorem queryThread_checked {α : Type} {s : Session} {f : Thread → Option (Except ℤ α)}
    {g : Thread → Except ℤ α} (u : UserCopy) (index : ℕ)
    (h : ∀ th, s.threads[index]? = some th → f th = some (g th)) :
    Checked.queryThread s u index f = some (queryThread s u index g) := by
  unfold Checked.queryThread queryThread rdFindThreadByIndex
  by_cases hfrom : u.fromUser = false
  · rw [if_pos hfrom, if_pos hfrom]
  rw [if_neg hfrom, if_neg hfrom]
  cases hth : s.threads[index]? with
  | none => rfl
  | some th =>
      dsimp only
      rw [h th hth]
      cases g th <;> rfl

section Queries

variable {s : Session}

theorem Session.Reachable.rdGetHistLocked (h : s.Reachable) (u : UserCopy)
    (threadIndex targetIndex : ℕ) :
    Checked.rdGetHistLocked s u threadIndex targetIndex =
      some (rdGetHistLocked s u threadIndex targetIndex) := by
  apply queryThread_checked
  intro th hth
  by_cases ht : targetIndex ≥ s.targetCount
  · rw [if_pos ht, if_pos ht]
  rw [if_neg ht, if_neg ht]
  split_ifs with hnil
  · rfl
  · have hlen := (h.shaped (List.mem_of_getElem? hth)).tables.1
    have hfit : targetIndex * log2Buckets + log2Buckets ≤ th.log2Hist.length := by
      calc targetIndex * log2Buckets + log2Buckets = (targetIndex + 1) * log2Buckets := by ring
        _ ≤ s.targetCount * log2Buckets := Nat.mul_le_mul_right _ (not_le.mp ht)
        _ = th.log2Hist.length := hlen.symm
    rw [readRange, if_pos hfit]
    rfl

theorem Session.Reachable.rdGetPairHistLocked (h : s.Reachable) (u : UserCopy)
    (threadIndex entryIndex : ℕ) :
    Checked.rdGetPairHistLocked s u threadIndex entryIndex =
      some (rdGetPairHistLocked s u threadIndex entryIndex) := by
  apply queryThread_checked
  intro th hth
  by_cases hi : entryIndex ≥ maxPairHists
  · rw [if_pos hi, if_pos hi]
  have hlen : th.pairHist.length = maxPairHists := by
    simpa using congrArg List.length (h.shaped (List.mem_of_getElem? hth)).tables.2.1
  rw [if_neg hi, if_neg hi, List.getElem?_eq_getElem (by omega)]
  rfl

theorem Session.Reachable.rdGetContextLocked (h : s.Reachable) (u : UserCopy)
    (threadIndex contextId : ℕ) :
    Checked.rdGetContextLocked s u threadIndex contextId =
      some (rdGetContextLocked s u threadIndex contextId) := by
  apply queryThread_checked
  intro th hth
  by_cases hi : contextId = 0 ∨ contextId > maxContexts
  · rw [if_pos hi, if_pos hi]
  have hlen := (h.shaped (List.mem_of_getElem? hth)).tables.2.2.1
  rw [if_neg hi, if_neg hi, List.getElem?_eq_getElem (by omega)]
  rfl

theorem Session.Reachable.rdGetDwarfEventLocked (h : s.Reachable) (u : UserCopy) (allocOk : Bool)
    (threadIndex eventIndex : ℕ) :
    Checked.rdGetDwarfEventLocked s u allocOk threadIndex eventIndex =
      some (rdGetDwarfEventLocked s u allocOk threadIndex eventIndex) := by
  apply queryThread_checked
  intro th hth
  by_cases hi : eventIndex ≥ s.dwarfEventCapacity
  · rw [if_pos hi, if_pos hi]
  rw [if_neg hi, if_neg hi]
  split_ifs
  · rfl
  · have hsize := (h.shaped (List.mem_of_getElem? hth)).tables.2.2.2
    cases hes : th.dwarfEvents with
    | none => rfl
    | some es =>
        rw [hes, Option.map_some] at hsize
        have hlen : es.length = s.dwarfEventCapacity := by
          split_ifs at hsize
          exact Option.some.inj hsize
        have he : es[eventIndex]? = some es[eventIndex] := List.getElem?_eq_getElem (by omega)
        simp only [Option.bind_some, he, Option.map_some]

end Queries

end RdSpeTool
