import RdSpeTool.Reset

/-!
# Only differences of `mem_access` readings matter

Handlers store counter readings in armed slots and raw events, and compute with them only in the
reuse distance. A map of the readings that keeps distances therefore commutes with every handler:
the thread that sees mapped readings is the mapped thread.
-/

namespace RdSpeTool

open ProbeTable

variable (φ : U64 → U64)

/-- The reading kept with an armed seed, mapped. -/
def Cell.mapAccess (x : Cell) : Cell :=
  if x.state = .armed then { x with seedAccess := φ x.seedAccess } else x

def Slot.mapAccess (s : Slot) : Slot := s.mapCell (Cell.mapAccess φ)

def DwarfEvent.mapAccess (e : DwarfEvent) : DwarfEvent :=
  if e.used then { e with seedAccess := φ e.seedAccess, hitAccess := φ e.hitAccess } else e

abbrev Thread.mapAccess (th : Thread) : Thread :=
  { th with
      slots := th.slots.map (Slot.mapAccess φ)
      dwarfEvents := th.dwarfEvents.map (List.map (DwarfEvent.mapAccess φ)) }

def HitEnv.mapAccess (env : HitEnv) : HitEnv := { env with memAccess := env.memAccess.map φ }

def Hit.mapAccess : Hit → Hit
  | .bp t regs env => .bp t regs (env.mapAccess φ)
  | .wp i regs env => .wp i regs (env.mapAccess φ)

section Cells

theorem Cell.mapAccess_state (x : Cell) : (x.mapAccess φ).state = x.state := by
  unfold Cell.mapAccess
  split_ifs <;> rfl

/-- Rewriting a cell without looking at its reading commutes with the map. -/
theorem Cell.mapAccess_comm {f : Cell → Cell} (hstate : ∀ x, (f x).state = x.state)
    (hf : ∀ x a, f { x with seedAccess := a } = { f x with seedAccess := a })
    (hseed : ∀ x, (f x).seedAccess = x.seedAccess) (x : Cell) :
    f (x.mapAccess φ) = (f x).mapAccess φ := by
  unfold Cell.mapAccess
  by_cases h : x.state = .armed
  · rw [if_pos h, if_pos ((hstate x).trans h), hseed x]
    exact hf x (φ x.seedAccess)
  · rw [if_neg h, if_neg fun h' => h ((hstate x).symm.trans h')]

theorem Cell.mapAccess_watch (e : PerfEvent) (x : Cell) :
    (x.mapAccess φ).watch e = (x.watch e).mapAccess φ :=
  Cell.mapAccess_comm φ (f := Cell.watch e) (fun _ => rfl) (fun _ _ => rfl) (fun _ => rfl) x

theorem Cell.mapAccess_skip (x : Cell) : (x.mapAccess φ).skip = x.skip.mapAccess φ :=
  Cell.mapAccess_comm φ (f := Cell.skip) (fun _ => rfl) (fun _ _ => rfl) (fun _ => rfl) x

theorem Cell.mapAccess_sampled (x : Cell) : (x.mapAccess φ).sampled = x.sampled.mapAccess φ := by
  refine Cell.mapAccess_comm φ (f := Cell.sampled) ?_ ?_ ?_ x
  · intro x
    unfold Cell.sampled
    split_ifs <;> rfl
  · intro x a
    unfold Cell.sampled
    dsimp only
    split_ifs <;> rfl
  · intro x
    unfold Cell.sampled
    split_ifs <;> rfl

theorem Slot.mapAccess_clear (s : Slot) : (s.mapAccess φ).clear = s.clear.mapAccess φ := by
  have hcell : (s.toCell.mapAccess φ).clear = s.toCell.clear.mapAccess φ := by
    have hidle : ¬ s.toCell.clear.state = .armed := by
      intro h
      cases h
    unfold Cell.mapAccess
    rw [if_neg hidle]
    split_ifs <;> rfl
  simp only [Slot.clear, Slot.mapAccess, Slot.mapCell, hcell]

theorem Slot.mapAccess_arm (target : Target) (t : ℕ) (seedVa a : U64) (ctx : ℕ) (s : Slot) :
    (s.mapAccess φ).arm target t seedVa (φ a) ctx =
      (s.arm target t seedVa a ctx).mapAccess φ := by
  have hcell : (s.toCell.mapAccess φ).arm target t seedVa (φ a) =
      (s.toCell.arm target t seedVa a).mapAccess φ := by
    have harmed : (s.toCell.arm target t seedVa a).state = .armed := rfl
    unfold Cell.mapAccess
    rw [if_pos harmed]
    split_ifs <;> rfl
  simp only [Slot.arm, Slot.mapAccess, Slot.mapCell, hcell]

theorem Slot.mapAccess_of_armed (s : Slot) (h : s.state = .armed) :
    s.mapAccess φ = { s with seedAccess := φ s.seedAccess } := by
  unfold Slot.mapAccess Slot.mapCell Cell.mapAccess
  rw [if_pos h]

end Cells

section Handlers

variable (c : SessionCtl) (th : Thread)

theorem mapAccess_updateSlot (i : ℕ) {f g : Slot → Slot}
    (h : ∀ s, (f s).mapAccess φ = g (s.mapAccess φ)) :
    (th.updateSlot i f).mapAccess φ = (th.mapAccess φ).updateSlot i g := by
  simp only [Thread.mapAccess, Thread.updateSlot, map_modify_of_comm h]

theorem getElem?_mapAccess {β : Type} (i : ℕ) {f : Slot → β}
    (hf : ∀ s, f (s.mapAccess φ) = f s) :
    (th.mapAccess φ).slots[i]?.map f = th.slots[i]?.map f := by
  rw [List.getElem?_map, Option.map_map]
  cases th.slots[i]? with
  | none => rfl
  | some s => exact congrArg some (hf s)

theorem mapAccess_rdCaptureCallchain (u : UserMem) (regs : Option PtRegs) :
    rdCaptureCallchain (th.mapAccess φ) u regs =
      ((rdCaptureCallchain th u regs).1.mapAccess φ, (rdCaptureCallchain th u regs).2) := by
  unfold rdCaptureCallchain
  cases regs with
  | none => rfl
  | some r =>
      dsimp only
      split_ifs <;> rfl

theorem mapAccess_captureChain (u : UserMem) (regs : Option PtRegs) :
    captureChain c (th.mapAccess φ) u regs =
      ((captureChain c th u regs).1.mapAccess φ, (captureChain c th u regs).2) := by
  unfold captureChain
  split_ifs
  · exact mapAccess_rdCaptureCallchain φ th u regs
  · rfl

theorem mapAccess_rdCaptureDwarfSnapshot (u : UserMem) (regs : Option PtRegs) :
    rdCaptureDwarfSnapshot c (th.mapAccess φ) u regs =
      ((rdCaptureDwarfSnapshot c th u regs).1.mapAccess φ,
        (rdCaptureDwarfSnapshot c th u regs).2) := by
  unfold rdCaptureDwarfSnapshot rdCopyUserStackSnapshot
  cases regs with
  | none => rfl
  | some r =>
      dsimp only
      split_ifs <;> rfl

theorem mapAccess_contextOf (chain : List U64) :
    contextOf c (th.mapAccess φ) chain =
      ((contextOf c th chain).1.mapAccess φ, (contextOf c th chain).2) := by
  unfold contextOf rdGetContextIdLocked
  split_ifs
  · rfl
  · dsimp only
    split <;> rfl
  · rfl

theorem mapAccess_rdModifySlot (i : ℕ) (addr : U64) (len : ℕ) (ret : ℤ) :
    rdModifySlot c (th.mapAccess φ) i addr len ret =
      ((rdModifySlot c th i addr len ret).1.mapAccess φ, (rdModifySlot c th i addr len ret).2) := by
  unfold rdModifySlot
  simp only [List.length_map]
  split_ifs
  · rfl
  · refine congrArg (·, (0 : ℤ)) (mapAccess_updateSlot φ th i ?_).symm
    intro s
    exact congrArg (fun x : Cell => { s with toCell := x }) (Cell.mapAccess_watch φ _ s.toCell).symm
  · rfl

theorem mapAccess_rdClearSlotMetadata (i : ℕ) :
    rdClearSlotMetadata c (th.mapAccess φ) i = (rdClearSlotMetadata c th i).mapAccess φ := by
  unfold rdClearSlotMetadata
  split_ifs
  · rfl
  · exact (mapAccess_updateSlot φ th i fun s => (s.mapAccess_clear φ).symm).symm

theorem mapAccess_replacePass (rng : U64) (slots : List Slot) :
    replacePass rng (slots.map (Slot.mapAccess φ)) =
      ((replacePass rng slots).1.map (Slot.mapAccess φ), (replacePass rng slots).2) := by
  induction slots generalizing rng with
  | nil => rfl
  | cons s rest ih =>
      have hsamples : (s.mapAccess φ).samples = s.samples := by
        simp only [Slot.mapAccess, Slot.mapCell, Cell.mapAccess]
        split_ifs <;> rfl
      have hsampled : (s.mapAccess φ).mapCell Cell.sampled =
          (s.mapCell Cell.sampled).mapAccess φ :=
        congrArg (fun x : Cell => { s with toCell := x }) (Cell.mapAccess_sampled φ s.toCell)
      simp only [List.map_cons, replacePass, hsamples, hsampled, ih]
      split_ifs <;> rfl

theorem mapAccess_rdPickWpSlot :
    rdPickWpSlot c (th.mapAccess φ) =
      ((rdPickWpSlot c th).1.mapAccess φ, (rdPickWpSlot c th).2) := by
  have hidle : (th.slots.map (Slot.mapAccess φ)).findIdx? (fun s => s.state == .idle) =
      th.slots.findIdx? (fun s => s.state == .idle) := by
    rw [List.findIdx?_map]
    congr 1
    funext s
    exact congrArg (· == WpState.idle) (Cell.mapAccess_state φ s.toCell)
  unfold rdPickWpSlot
  simp only [hidle, mapAccess_replacePass]
  split_ifs
  · rfl
  · cases th.slots.findIdx? (fun s => s.state == .idle) with
    | some i => rfl
    | none =>
        dsimp only
        cases (replacePass th.rng th.slots).2.2 <;> rfl

theorem mapAccess_countEviction (i : ℕ) (isReplacement : Bool) :
    countEviction (th.mapAccess φ) i isReplacement =
      (countEviction th i isReplacement).mapAccess φ := by
  unfold countEviction
  rw [getElem?_mapAccess φ th i fun s => Cell.mapAccess_state φ s.toCell]
  split_ifs <;> rfl

theorem mapAccess_captureSeed (i : ℕ) (u : UserMem) (regs : PtRegs) :
    captureSeed c (th.mapAccess φ) i u regs = (captureSeed c th i u regs).mapAccess φ := by
  have hsnap : ((th.mapAccess φ).slots[i]?.bind Slot.seedSnapshot).isSome =
      (th.slots[i]?.bind Slot.seedSnapshot).isSome := by
    rw [List.getElem?_map]
    cases th.slots[i]? <;> rfl
  unfold captureSeed
  rw [hsnap, mapAccess_rdCaptureDwarfSnapshot]
  split_ifs
  · refine (mapAccess_updateSlot φ _ i ?_).symm
    intro s
    rfl
  · rfl

theorem mapAccess_settleSeed (i : ℕ) (seedVa : U64) (accessSize : ℕ) (env : HitEnv) :
    settleSeed c (th.mapAccess φ) i seedVa accessSize (env.mapAccess φ) =
      (settleSeed c th i seedVa accessSize env).mapAccess φ := by
  have hidle : (th.mapAccess φ).slots[i]?.map (fun s => s.idleAddr) =
      th.slots[i]?.map fun s => s.idleAddr := by
    apply getElem?_mapAccess
    intro s
    simp only [Slot.mapAccess, Slot.mapCell, Cell.mapAccess]
    split_ifs <;> rfl
  unfold settleSeed
  rw [hidle]
  simp only [HitEnv.mapAccess, mapAccess_rdModifySlot]
  split_ifs
  · have hclear := mapAccess_rdClearSlotMetadata φ c
      (rdModifySlot c th i seedVa accessSize env.modRet).1.addDropped i
    have hmove := mapAccess_rdModifySlot φ c (rdClearSlotMetadata c
      (rdModifySlot c th i seedVa accessSize env.modRet).1.addDropped i) i
      ((th.slots[i]?.map fun s => s.idleAddr).getD 0) idleWpLen env.idleRet
    rw [← hclear] at hmove
    exact congrArg Prod.fst hmove
  · rfl

theorem mapAccess_installSeed (i : ℕ) (isReplacement : Bool) (target : Target) (t : ℕ)
    (seedVa a : U64) (ctx : ℕ) (regs : PtRegs) (env : HitEnv) :
    installSeed c (th.mapAccess φ) i isReplacement target t seedVa (φ a) ctx regs
        (env.mapAccess φ) =
      (installSeed c th i isReplacement target t seedVa a ctx regs env).mapAccess φ := by
  unfold installSeed
  dsimp only
  rw [mapAccess_countEviction,
    ← mapAccess_updateSlot φ _ i fun s => (s.mapAccess_arm φ target t seedVa a ctx).symm]
  have huser : (env.mapAccess φ).user = env.user := rfl
  rw [huser, mapAccess_captureSeed, mapAccess_settleSeed]

theorem mapAccess_rdReadMemAccess (reading : Option U64) :
    rdReadMemAccess (th.mapAccess φ) (reading.map φ) = (rdReadMemAccess th reading).map φ := by
  unfold rdReadMemAccess
  dsimp only
  split_ifs <;> rfl

/-- A breakpoint hit with mapped readings, on the mapped thread. -/
theorem mapAccess_rdHandleBpHit (t : ℕ) (regs : Option PtRegs) (env : HitEnv) :
    rdHandleBpHit c (th.mapAccess φ) t regs (env.mapAccess φ) =
      (rdHandleBpHit c th t regs env).mapAccess φ := by
  unfold rdHandleBpHit
  cases regs with
  | none => rfl
  | some r =>
      cases c.targets[t]? with
      | none => rfl
      | some target =>
          by_cases hoff : th.active = false ∨ c.running = false
          · simp only [if_pos hoff]
          · simp only [if_neg hoff]
            have hread := mapAccess_rdReadMemAccess φ th env.memAccess
            have henv : (env.mapAccess φ).memAccess = env.memAccess.map φ := rfl
            have huser : (env.mapAccess φ).user = env.user := rfl
            rw [henv, hread, huser]
            cases rdReadMemAccess th env.memAccess with
            | none => rfl
            | some a =>
                simp only [Option.map_some]
                have hpick := mapAccess_rdPickWpSlot φ c
                  (captureChain c th env.user (some r)).1.addCandidate
                have hchain := mapAccess_captureChain φ c th env.user (some r)
                have hcand : (captureChain c (th.mapAccess φ) env.user (some r)).1.addCandidate =
                    (captureChain c th env.user (some r)).1.addCandidate.mapAccess φ := by
                  rw [hchain]
                  rfl
                have hips : (captureChain c (th.mapAccess φ) env.user (some r)).2 =
                    (captureChain c th env.user (some r)).2 := by
                  rw [hchain]
                rw [hcand, hips, hpick]
                generalize rdPickWpSlot c (captureChain c th env.user (some r)).1.addCandidate =
                  picked
                obtain ⟨th', choice⟩ := picked
                rcases choice with _ | ⟨i, isReplacement⟩
                · rfl
                · dsimp only
                  split_ifs
                  · rfl
                  · rw [mapAccess_contextOf, mapAccess_installSeed]

theorem mapAccess_captureReuse (i : ℕ) (u : UserMem) (regs : Option PtRegs) :
    captureReuse c (th.mapAccess φ) i u regs =
      ((captureReuse c th i u regs).1.mapAccess φ, (captureReuse c th i u regs).2) := by
  unfold captureReuse
  dsimp only
  rw [mapAccess_captureChain]
  generalize captureChain c th u regs = chain
  have hsnap : ((chain.1.mapAccess φ).slots[i]?.bind Slot.reuseSnapshot).isSome =
      (chain.1.slots[i]?.bind Slot.reuseSnapshot).isSome := by
    rw [List.getElem?_map]
    cases chain.1.slots[i]? <;> rfl
  rw [hsnap, mapAccess_rdCaptureDwarfSnapshot]
  split_ifs
  · refine congrArg (·, chain.2) (mapAccess_updateSlot φ _ i ?_).symm
    intro s
    rfl
  · rfl

theorem mapAccess_addBucket (slot : Slot) (bucket : ℕ) :
    addBucket c (th.mapAccess φ) (slot.mapAccess φ) bucket =
      (addBucket c th slot bucket).mapAccess φ := by
  have htarget : (slot.mapAccess φ).targetIndex = slot.targetIndex := by
    simp only [Slot.mapAccess, Slot.mapCell, Cell.mapAccess]
    split_ifs <;> rfl
  unfold addBucket
  rw [htarget]
  dsimp only
  split_ifs <;> rfl

theorem mapAccess_rdAddPairHistLocked (key : PairKey) (bucket : ℕ) :
    rdAddPairHistLocked (th.mapAccess φ) key bucket =
      (rdAddPairHistLocked th key bucket).mapAccess φ := by
  unfold rdAddPairHistLocked
  split_ifs
  · rfl
  · dsimp only
    split <;> rfl

theorem mapAccess_rdReserveDwarfEventLocked :
    rdReserveDwarfEventLocked c (th.mapAccess φ) =
      ((rdReserveDwarfEventLocked c th).1.mapAccess φ, (rdReserveDwarfEventLocked c th).2) := by
  unfold rdReserveDwarfEventLocked
  simp only [Option.map_eq_none_iff]
  split_ifs <;> rfl

theorem mapAccess_storeEvent {slot : Slot} (harmed : slot.state = .armed) (i : ℕ)
    (reusePc a : U64) (hd : reuseDelta (φ slot.seedAccess) (φ a) = reuseDelta slot.seedAccess a)
    (index : Option ℕ) :
    storeEvent (th.mapAccess φ) (slot.mapAccess φ) i reusePc (φ a) index =
      (storeEvent th slot i reusePc a index).mapAccess φ := by
  cases index with
  | none => rfl
  | some n =>
      have hslot := slot.mapAccess_of_armed φ harmed
      have hseed : (th.mapAccess φ).slots[i]?.bind Slot.seedSnapshot =
          th.slots[i]?.bind Slot.seedSnapshot := by
        rw [List.getElem?_map]
        cases th.slots[i]? <;> rfl
      have hreuse : (th.mapAccess φ).slots[i]?.bind Slot.reuseSnapshot =
          th.slots[i]?.bind Slot.reuseSnapshot := by
        rw [List.getElem?_map]
        cases th.slots[i]? <;> rfl
      have hevent : dwarfEventOf (th.mapAccess φ) (slot.mapAccess φ) i n reusePc (φ a) =
          (dwarfEventOf th slot i n reusePc a).mapAccess φ := by
        unfold dwarfEventOf DwarfEvent.mapAccess
        rw [if_pos rfl, hseed, hreuse, hslot]
        dsimp only
        rw [hd]
      have hset : ((th.mapAccess φ).dwarfEvents.map fun es =>
          es.set n (dwarfEventOf (th.mapAccess φ) (slot.mapAccess φ) i n reusePc (φ a))) =
          (th.dwarfEvents.map fun es => es.set n (dwarfEventOf th slot i n reusePc a)).map
            (List.map (DwarfEvent.mapAccess φ)) := by
        rw [hevent, Option.map_map, Option.map_map]
        congr 1
        funext es
        exact (List.map_set ..).symm
      exact congrArg (fun d => { th.mapAccess φ with dwarfEvents := d }) hset

theorem mapAccess_recordReuse {slot : Slot} (harmed : slot.state = .armed) (i : ℕ)
    (reusePc : U64) (chain : List U64) (a : U64)
    (hd : reuseDelta (φ slot.seedAccess) (φ a) = reuseDelta slot.seedAccess a) :
    recordReuse c (th.mapAccess φ) (slot.mapAccess φ) i reusePc chain (φ a) =
      (recordReuse c th slot i reusePc chain a).mapAccess φ := by
  have hslot := slot.mapAccess_of_armed φ harmed
  have hacc : (slot.mapAccess φ).seedAccess = φ slot.seedAccess := by rw [hslot]
  have hoff : (slot.mapAccess φ).seedPcOffset = slot.seedPcOffset := by rw [hslot]
  have hid : (slot.mapAccess φ).seedContextId = slot.seedContextId := by rw [hslot]
  unfold recordReuse
  dsimp only
  rw [hacc, hoff, hid, hd, mapAccess_contextOf, mapAccess_addBucket, mapAccess_rdAddPairHistLocked]
  generalize rdAddPairHistLocked _ _ _ = th1
  by_cases hmode : c.callchainMode = .dwarf
  · simp only [if_pos hmode, mapAccess_rdReserveDwarfEventLocked]
    exact mapAccess_storeEvent φ (rdReserveDwarfEventLocked c th1).1.addHit harmed i reusePc a hd _
  · simp only [if_neg hmode]
    exact mapAccess_storeEvent φ th1.addHit harmed i reusePc a hd none

theorem mapAccess_retireSlot (i : ℕ) (idleAddr : U64) (idleRet : ℤ) :
    retireSlot c (th.mapAccess φ) i idleAddr idleRet =
      (retireSlot c th i idleAddr idleRet).mapAccess φ := by
  unfold retireSlot
  rw [getElem?_mapAccess φ th i fun s => Cell.mapAccess_state φ s.toCell]
  dsimp only
  split_ifs
  · rw [mapAccess_rdClearSlotMetadata, mapAccess_rdModifySlot]
  · rw [mapAccess_rdModifySlot]

/-- A watchpoint report with mapped readings, when the map keeps the distance it records. -/
theorem mapAccess_rdHandleWpHit (i : ℕ) (regs : Option PtRegs) (env : HitEnv)
    (hd : ∀ s ∈ th.slots, s.state = .armed → ∀ a ∈ env.memAccess,
      reuseDelta (φ s.seedAccess) (φ a) = reuseDelta s.seedAccess a) :
    rdHandleWpHit c (th.mapAccess φ) i regs (env.mapAccess φ) =
      (rdHandleWpHit c th i regs env).mapAccess φ := by
  unfold rdHandleWpHit
  by_cases hoff : th.active = false ∨ c.running = false ∨ i ≥ c.wpCapacity
  · rw [if_pos hoff, if_pos hoff]
  rw [if_neg hoff, if_neg hoff, List.getElem?_map]
  cases hslot : th.slots[i]? with
  | none => rfl
  | some slot =>
      have hother : (slot.mapAccess φ).state = slot.state ∧
          (slot.mapAccess φ).skipFirstHit = slot.skipFirstHit ∧
          (slot.mapAccess φ).targetIndex = slot.targetIndex ∧
          (slot.mapAccess φ).idleAddr = slot.idleAddr := by
        simp only [Slot.mapAccess, Slot.mapCell, Cell.mapAccess]
        split_ifs <;> exact ⟨rfl, rfl, rfl, rfl⟩
      obtain ⟨hstate, hskip, htarget, hidle⟩ := hother
      dsimp only [Option.map_some]
      by_cases harmed : slot.state ≠ .armed
      · rw [if_pos harmed, if_pos (hstate.symm ▸ harmed)]
      rw [if_neg harmed, if_neg (hstate.symm ▸ harmed)]
      have harmed' : slot.state = .armed := not_not.mp harmed
      by_cases hs : slot.skipFirstHit = true
      · rw [if_pos hs, if_pos (hskip.trans hs)]
        refine (mapAccess_updateSlot φ th i ?_).symm
        intro s
        exact congrArg (fun x : Cell => { s with toCell := x }) (Cell.mapAccess_skip φ s.toCell).symm
      rw [if_neg hs, if_neg (hskip.symm ▸ hs)]
      by_cases ht : slot.targetIndex ≥ c.targetCount
      · rw [if_pos ht, if_pos (htarget.symm ▸ ht), hidle]
        exact mapAccess_retireSlot φ c th.addDropped i slot.idleAddr env.idleRet
      rw [if_neg ht, if_neg (htarget.symm ▸ ht), hidle]
      have huser : (env.mapAccess φ).user = env.user := rfl
      have henv : (env.mapAccess φ).memAccess = env.memAccess.map φ := rfl
      have hret : (env.mapAccess φ).idleRet = env.idleRet := rfl
      rw [huser, henv, hret, mapAccess_captureReuse]
      generalize captureReuse c th i env.user regs = cap
      dsimp only
      rw [mapAccess_rdReadMemAccess]
      cases hread : rdReadMemAccess cap.1 env.memAccess with
      | none => exact mapAccess_retireSlot φ c cap.1.addDropped i slot.idleAddr env.idleRet
      | some a =>
          have ha : a ∈ env.memAccess := by
            unfold rdReadMemAccess at hread
            split_ifs at hread
            exact hread
          have hdist := hd slot (List.mem_of_getElem? hslot) harmed' a ha
          simp only [Option.map_some]
          rw [mapAccess_recordReuse φ c cap.1 harmed' i _ cap.2 a hdist, mapAccess_retireSlot]

end Handlers

end RdSpeTool
