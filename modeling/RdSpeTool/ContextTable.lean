import RdSpeTool.Tables

/-!
# Context ids in a thread

Ids leave `rd_get_context_id_locked` for slots and pair keys that outlive the call. A `ContextView`
is what of a thread takes part in that: the table, and the ids its slots hold. A hit asks for at
most one id, and afterwards one slot may hold that id or none.
-/

namespace RdSpeTool

open ProbeTable

structure ContextView where
  contexts : List ContextEntry
  contextUsed : ℕ
  ids : List ℕ

abbrev Thread.contextView (th : Thread) : ContextView where
  contexts := th.contexts
  contextUsed := th.contextUsed
  ids := th.slots.map Slot.seedContextId

namespace ContextView

variable (v : ContextView)

def lookup (key : List U64) : ContextView × ℕ :=
  if key = [] then (v, 0)
  else
    match probe ContextEntry.used (fun e => e.ips == key) v.contexts 0 none with
    | .found i => (v, i + 1)
    | .free i =>
        ({ v with
            contexts := v.contexts.modify i (fun _ => ⟨true, key⟩)
            contextUsed := v.contextUsed + 1 }, i + 1)
    | .full => (v, 0)

def request : Option (List U64) → ContextView × ℕ
  | none => (v, 0)
  | some key => v.lookup key

def setId (i id : ℕ) : ContextView := { v with ids := v.ids.modify i fun _ => id }

theorem setId_setId (i a b : ℕ) : (v.setId i a).setId i b = v.setId i b := by
  simp only [setId, List.modify_modify_eq]
  rfl

theorem lookup_ids (key : List U64) : (v.lookup key).1.ids = v.ids := by
  unfold lookup
  split_ifs
  · rfl
  · split <;> rfl

theorem request_ids (key : Option (List U64)) : (v.request key).1.ids = v.ids := by
  cases key with
  | none => rfl
  | some key => exact v.lookup_ids key

end ContextView

def chainKey (c : SessionCtl) (chain : List U64) : Option (List U64) :=
  if c.callchainMode = .fp ∧ chain ≠ [] then some chain else none

section Handlers

variable (c : SessionCtl) (th : Thread)

theorem view_rdGetContextIdLocked (key : List U64) :
    (rdGetContextIdLocked th key).1.contextView = (th.contextView.lookup key).1 ∧
      (rdGetContextIdLocked th key).2 = (th.contextView.lookup key).2 := by
  unfold rdGetContextIdLocked ContextView.lookup
  split_ifs
  · exact ⟨rfl, rfl⟩
  · cases probe ContextEntry.used (fun e => e.ips == key) th.contexts 0 none <;> exact ⟨rfl, rfl⟩

theorem view_contextOf (chain : List U64) :
    (contextOf c th chain).1.contextView = (th.contextView.request (chainKey c chain)).1 ∧
      (contextOf c th chain).2 = (th.contextView.request (chainKey c chain)).2 := by
  unfold contextOf chainKey
  split_ifs
  · exact view_rdGetContextIdLocked th chain
  · exact ⟨rfl, rfl⟩

theorem view_updateSlot (i : ℕ) {f : Slot → Slot}
    (h : ∀ s, (f s).seedContextId = s.seedContextId) :
    (th.updateSlot i f).contextView = th.contextView := by
  simp only [Thread.contextView, Thread.updateSlot, map_modify_eq_map (fun s _ => h s)]

theorem view_updateSlot_id (i id : ℕ) {f : Slot → Slot} (h : ∀ s, (f s).seedContextId = id) :
    (th.updateSlot i f).contextView = th.contextView.setId i id := by
  simp only [Thread.contextView, Thread.updateSlot, ContextView.setId]
  congr 1
  exact map_modify_of_comm h

theorem view_captureChain (u : UserMem) (regs : Option PtRegs) :
    (captureChain c th u regs).1.contextView = th.contextView := by
  obtain ⟨_, _, he⟩ := captureChain_fst c th u regs
  rw [he]

theorem view_rdCaptureDwarfSnapshot (u : UserMem) (regs : Option PtRegs) :
    (rdCaptureDwarfSnapshot c th u regs).1.contextView = th.contextView := by
  obtain ⟨_, he⟩ := rdCaptureDwarfSnapshot_fst c th u regs
  rw [he]

theorem view_rdModifySlot (i : ℕ) (addr : U64) (len : ℕ) (ret : ℤ) :
    (rdModifySlot c th i addr len ret).1.contextView = th.contextView := by
  unfold rdModifySlot
  split_ifs
  · rfl
  · exact view_updateSlot th i (fun _ => rfl)
  · rfl

theorem view_rdClearSlotMetadata (i : ℕ) :
    (rdClearSlotMetadata c th i).contextView = th.contextView ∨
      (rdClearSlotMetadata c th i).contextView = th.contextView.setId i 0 := by
  unfold rdClearSlotMetadata
  split_ifs
  · exact Or.inl rfl
  · exact Or.inr (view_updateSlot_id th i 0 (fun _ => rfl))

theorem view_rdPickWpSlot : (rdPickWpSlot c th).1.contextView = th.contextView := by
  have hpass : ∀ (rng : U64) (slots : List Slot),
      (replacePass rng slots).1.map Slot.seedContextId = slots.map Slot.seedContextId := by
    intro rng slots
    induction slots generalizing rng with
    | nil => rfl
    | cons s rest ih =>
        have hs : (s.mapCell Cell.sampled).seedContextId = s.seedContextId := rfl
        simp only [replacePass]
        split_ifs <;> simp [hs, ih]
  obtain ⟨_, _, _, slots, hslots, he⟩ := rdPickWpSlot_fst c th
  have hmap : slots.map Slot.seedContextId = th.slots.map Slot.seedContextId := by
    rcases hslots with rfl | rfl
    · rfl
    · exact hpass th.rng th.slots
  rw [he]
  simp only [Thread.contextView, hmap]

/-- An accepted candidate leaves its id in the slot, or none if the seed was dropped. -/
theorem view_installSeed (i : ℕ) (isReplacement : Bool) (target : Target) (targetIndex : ℕ)
    (seedVa seedAccess : U64) (contextId : ℕ) (regs : PtRegs) (env : HitEnv) :
    ∃ id, (id = 0 ∨ id = contextId) ∧ (installSeed c th i isReplacement target targetIndex seedVa
      seedAccess contextId regs env).contextView = th.contextView.setId i id := by
  have hevict : (countEviction th i isReplacement).contextView = th.contextView := by
    unfold countEviction
    split_ifs <;> rfl
  have hcapture : ∀ t : Thread, (captureSeed c t i env.user regs).contextView = t.contextView := by
    intro t
    unfold captureSeed
    split_ifs
    · dsimp only
      rw [view_updateSlot, view_rdCaptureDwarfSnapshot]
      exact fun _ => rfl
    · rfl
  have harm : ((countEviction th i isReplacement).updateSlot i
      (Slot.arm target targetIndex seedVa seedAccess contextId)).contextView =
        th.contextView.setId i contextId := by
    rw [view_updateSlot_id _ i contextId (fun _ => rfl), hevict]
  unfold installSeed settleSeed
  dsimp only
  split_ifs
  · rw [view_rdModifySlot]
    have hmod : ∀ t : Thread, (rdModifySlot c (captureSeed c t i env.user regs) i seedVa
        target.decode.accessSize env.modRet).1.addDropped.contextView = t.contextView := by
      intro t
      exact (view_rdModifySlot c _ i seedVa target.decode.accessSize env.modRet).trans (hcapture t)
    rcases view_rdClearSlotMetadata c (rdModifySlot c (captureSeed c
      ((countEviction th i isReplacement).updateSlot i
        (Slot.arm target targetIndex seedVa seedAccess contextId)) i env.user regs) i seedVa
      target.decode.accessSize env.modRet).1.addDropped i with he | he
    · exact ⟨contextId, Or.inr rfl, by rw [he, hmod, harm]⟩
    · exact ⟨0, Or.inl rfl, by rw [he, hmod, harm, ContextView.setId_setId]⟩
  · exact ⟨contextId, Or.inr rfl, by rw [view_rdModifySlot, hcapture, harm]⟩

theorem view_retireSlot (i : ℕ) (idleAddr : U64) (idleRet : ℤ) :
    (retireSlot c th i idleAddr idleRet).contextView = th.contextView ∨
      (retireSlot c th i idleAddr idleRet).contextView = th.contextView.setId i 0 := by
  unfold retireSlot
  dsimp only
  rw [view_rdModifySlot]
  split_ifs
  · exact view_rdClearSlotMetadata c th i
  · exact Or.inl rfl

theorem view_captureReuse (i : ℕ) (u : UserMem) (regs : Option PtRegs) :
    (captureReuse c th i u regs).1.contextView = th.contextView := by
  have hchain := view_captureChain c th u regs
  unfold captureReuse
  dsimp only
  split_ifs
  · rw [view_updateSlot, view_rdCaptureDwarfSnapshot, hchain]
    exact fun _ => rfl
  · exact hchain

theorem view_recordReuse (slot : Slot) (i : ℕ) (reusePc : U64) (chain : List U64)
    (hitAccess : U64) : (recordReuse c th slot i reusePc chain hitAccess).contextView =
      (th.contextView.request (chainKey c chain)).1 := by
  have hbucket : ∀ (t : Thread) (b : ℕ), (addBucket c t slot b).contextView = t.contextView := by
    intro t b
    unfold addBucket
    dsimp only
    split_ifs <;> rfl
  have hpair : ∀ (t : Thread) (key : PairKey) (b : ℕ),
      (rdAddPairHistLocked t key b).contextView = t.contextView := by
    intro t key b
    unfold rdAddPairHistLocked
    split_ifs
    · rfl
    · split <;> rfl
  have hreserve : ∀ t : Thread, (if c.callchainMode = .dwarf then rdReserveDwarfEventLocked c t
      else (t, none)).1.contextView = t.contextView := by
    intro t
    unfold rdReserveDwarfEventLocked
    split_ifs <;> rfl
  have hstore : ∀ (t : Thread) (n : Option ℕ),
      (storeEvent t slot i reusePc hitAccess n).contextView = t.contextView := by
    intro t n
    cases n <;> rfl
  unfold recordReuse
  dsimp only
  rw [hstore]
  refine (hreserve _).trans ?_
  rw [hpair, hbucket]
  exact (view_contextOf c th chain).1

end Handlers

/-- The chain with which a breakpoint hit asks for a context id, if it asks. -/
def seedKey (c : SessionCtl) (th : Thread) (t : ℕ) (regs : Option PtRegs) (env : HitEnv) :
    Option (List U64) :=
  match regs, c.targets[t]? with
  | some regs, some _ =>
      if th.active = false ∨ c.running = false then none
      else
        match rdReadMemAccess th env.memAccess with
        | none => none
        | some _ =>
            let chain := captureChain c th env.user (some regs)
            match (rdPickWpSlot c chain.1.addCandidate).2 with
            | none => none
            | some (i, _) => if i ≥ c.wpCapacity then none else chainKey c chain.2
  | _, _ => none

def reuseKey (c : SessionCtl) (th : Thread) (i : ℕ) (regs : Option PtRegs) (env : HitEnv) :
    Option (List U64) :=
  match th.meter.recorded c.meterCtl i env with
  | none => none
  | some _ => chainKey c (captureChain c th env.user regs).2

def Thread.contextKey (c : SessionCtl) (th : Thread) : Hit → Option (List U64)
  | .bp t regs env => seedKey c th t regs env
  | .wp i regs env => reuseKey c th i regs env

/-- The table after a request, with at most one slot changed to the id it got or to none. -/
structure ContextView.Stored (r : ContextView × ℕ) (v : ContextView) : Prop where
  exists_slot : ∃ i id, (id = 0 ∨ id = r.2) ∧ (v = r.1 ∨ v = r.1.setId i id)

theorem ContextView.Stored.forall_ids {r : ContextView × ℕ} {v : ContextView} (h : Stored r v)
    {p : ℕ → Prop} (hall : ∀ id ∈ r.1.ids, p id) (hzero : p 0) (hid : p r.2) :
    ∀ id ∈ v.ids, p id := by
  obtain ⟨i, id, hcase, rfl | rfl⟩ := h.exists_slot
  · exact hall
  · intro id' hmem
    obtain ⟨j, hj⟩ := List.mem_iff_getElem?.mp hmem
    obtain ⟨old, hold, ⟨-, rfl⟩ | ⟨-, rfl⟩⟩ := getElem?_modify_cases hj
    · rcases hcase with rfl | rfl
      · exact hzero
      · exact hid
    · exact hall id' (List.mem_of_getElem? hold)

theorem ContextView.Stored.table {r : ContextView × ℕ} {v : ContextView} (h : Stored r v) :
    v.contexts = r.1.contexts ∧ v.contextUsed = r.1.contextUsed := by
  obtain ⟨i, id, -, rfl | rfl⟩ := h.exists_slot <;> exact ⟨rfl, rfl⟩

/-- Only frame-pointer mode asks for ids. -/
theorem contextKey_eq_none {c : SessionCtl} {th : Thread} (hmode : c.callchainMode ≠ .fp)
    (h : Hit) : th.contextKey c h = none := by
  have hkey : ∀ chain, chainKey c chain = none := fun chain => if_neg fun hh => hmode hh.1
  cases h with
  | bp t regs env =>
      simp only [Thread.contextKey, seedKey, hkey, ite_self]
      repeat' first | rfl | split
  | wp i regs env =>
      simp only [Thread.contextKey, reuseKey, hkey]
      split <;> rfl

theorem view_rdHandleBpHit (c : SessionCtl) (th : Thread) (t : ℕ) (regs : Option PtRegs)
    (env : HitEnv) : ContextView.Stored (th.contextView.request (seedKey c th t regs env))
      (rdHandleBpHit c th t regs env).contextView := by
  unfold rdHandleBpHit seedKey
  cases regs with
  | none => exact ⟨0, 0, Or.inl rfl, Or.inl rfl⟩
  | some r =>
      cases c.targets[t]? with
      | none => exact ⟨0, 0, Or.inl rfl, Or.inl rfl⟩
      | some target =>
          dsimp only
          by_cases hoff : th.active = false ∨ c.running = false
          · rw [if_pos hoff, if_pos hoff]
            exact ⟨0, 0, Or.inl rfl, Or.inl rfl⟩
          rw [if_neg hoff, if_neg hoff]
          cases rdReadMemAccess th env.memAccess with
          | none => exact ⟨0, 0, Or.inl rfl, Or.inl rfl⟩
          | some seedAccess =>
              dsimp only
              have hpick := view_rdPickWpSlot c
                (captureChain c th env.user (some r)).1.addCandidate
              have hchain : (captureChain c th env.user (some r)).1.addCandidate.contextView =
                  th.contextView := view_captureChain c th env.user (some r)
              rw [hchain] at hpick
              generalize rdPickWpSlot c (captureChain c th env.user (some r)).1.addCandidate =
                picked at hpick
              obtain ⟨th', choice⟩ := picked
              rcases choice with _ | ⟨i, isReplacement⟩
              · exact ⟨0, 0, Or.inl rfl, Or.inl hpick⟩
              · dsimp only
                by_cases hi : i ≥ c.wpCapacity
                · rw [if_pos hi, if_pos hi]
                  exact ⟨0, 0, Or.inl rfl, Or.inl hpick⟩
                rw [if_neg hi, if_neg hi]
                obtain ⟨hview, hid⟩ := view_contextOf c th'
                  (captureChain c th env.user (some r)).2
                have hview' : th'.contextView = th.contextView := hpick
                rw [hview'] at hview hid
                obtain ⟨id, hcase, he⟩ := view_installSeed c
                  (contextOf c th' (captureChain c th env.user (some r)).2).1 i isReplacement target
                  t (rdComputeEffectiveAddress target.decode r) seedAccess
                  (contextOf c th' (captureChain c th env.user (some r)).2).2 r env
                rw [hid] at hcase
                rw [hview] at he
                exact ⟨i, id, hcase, Or.inr he⟩

theorem view_rdHandleWpHit (c : SessionCtl) (th : Thread) (i : ℕ) (regs : Option PtRegs)
    (env : HitEnv) : ContextView.Stored (th.contextView.request (reuseKey c th i regs env))
      (rdHandleWpHit c th i regs env).contextView := by
  unfold reuseKey
  obtain ⟨hnone, hcase⟩ | ⟨slot, a, -, -, hrecorded, he⟩ := rdHandleWpHit_cases c th i regs env
  · rw [hnone]
    obtain he | he | ⟨slot, th', -, -, hth', he⟩ := hcase
    · rw [he]
      exact ⟨0, 0, Or.inl rfl, Or.inl rfl⟩
    · rw [he]
      exact ⟨0, 0, Or.inl rfl, Or.inl (view_updateSlot th i fun _ => rfl)⟩
    · have hview : th'.addDropped.contextView = th.contextView := by
        rcases hth' with rfl | rfl
        · rfl
        · exact view_captureReuse c th i env.user regs
      have hretire := view_retireSlot c th'.addDropped i slot.idleAddr env.idleRet
      rw [hview] at hretire
      rw [he]
      exact ⟨i, 0, Or.inl rfl, hretire⟩
  · have hretire := view_retireSlot c (recordReuse c (captureReuse c th i env.user regs).1 slot i
      ((regs.map PtRegs.pc).getD 0) (captureReuse c th i env.user regs).2 a) i slot.idleAddr
      env.idleRet
    rw [view_recordReuse, view_captureReuse] at hretire
    rw [hrecorded, he, ← (captureReuse_contexts c th i env.user regs).2]
    exact ⟨i, 0, Or.inl rfl, hretire⟩

/-- What a hit does to the context table and to the ids of the slots. -/
theorem view_hit (c : SessionCtl) (th : Thread) (h : Hit) :
    ContextView.Stored (th.contextView.request (th.contextKey c h)) (th.hit c h).contextView := by
  cases h with
  | bp t regs env => exact view_rdHandleBpHit c th t regs env
  | wp i regs env => exact view_rdHandleWpHit c th i regs env

end RdSpeTool
