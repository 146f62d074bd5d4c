import RdSpeTool.ContextTable
import RdSpeTool.ThreadShape

/-!
# Call-context capture leaves the measurement alone

Two sessions that differ in callchain mode, stack bytes and event capacity go through the same
events. Their threads stay twins: the same meter at every step, and without frame-pointer contexts
on either side the same pair table, however many raw events were dropped.
-/

namespace RdSpeTool

open ProbeTable

namespace Meter

def setEvents (b : Bool) (m : Meter) : Meter :=
  { m with
      memEvent := m.memEvent.map fun _ => b
      cells := m.cells.map fun x => x.watch (x.wpEvent.setEnabled b) }

def parkCells (k : MeterCtl) (mods : ℕ → ℤ) : ℕ → Meter → Meter × ℤ
  | 0, m => (m, 0)
  | n + 1, m =>
      let prev := parkCells k mods n m
      let mod := prev.1.move k n ((prev.1.cells[n]?.map Cell.idleAddr).getD 0) idleWpLen (mods n)
      (mod.1, if prev.2 = 0 then mod.2 else prev.2)

def wipe (tid : ℤ) (m : Meter) : Meter :=
  { m with
      cells := m.cells.map fun x => { x.clear with generation := 0 }
      log2Hist := m.log2Hist.map fun _ => 0
      candidateSamples := 0
      reservoirSeen := 0
      reservoirAccepted := 0
      reservoirRejected := 0
      hits := 0
      evictions := 0
      dropped := 0
      rng := initialRng tid }

def reset (k : MeterCtl) (tid : ℤ) (mods : ℕ → ℤ) (m : Meter) : Meter :=
  (if m.active then (parkCells k mods k.wpCapacity m).1 else m).wipe tid

end Meter

theorem meter_setEvents (b : Bool) (th : Thread) :
    (th.setEvents b).meter = th.meter.setEvents b := by
  simp only [Thread.meter, Thread.setEvents, Meter.setEvents, List.map_map]
  rfl

theorem meter_parkSlots (c : SessionCtl) (mods : ℕ → ℤ) (n : ℕ) (th : Thread) :
    th.meter.parkCells c.meterCtl mods n =
      ((parkSlots c mods n th).1.meter, (parkSlots c mods n th).2) := by
  induction n with
  | zero => rfl
  | succ n ih =>
      simp only [Meter.parkCells, parkSlots, ih]
      rw [meter_getElem?_map, meter_rdModifySlot]

theorem meter_rdResetThreadLocked (c : SessionCtl) (th : Thread) (mods : ℕ → ℤ) :
    (rdResetThreadLocked c th mods).2.meter = th.meter.reset c.meterCtl th.tid mods := by
  have hwipe : ∀ p : Thread, p.wipe.meter = p.meter.wipe p.tid := by
    intro p
    simp only [Thread.meter, Thread.wipe, Meter.wipe, List.map_map]
    rfl
  have htid : (parkSlots c mods c.wpCapacity th).1.tid = th.tid :=
    congrArg Frame.tid (frame_parkSlots c mods c.wpCapacity th)
  unfold rdResetThreadLocked Meter.reset
  dsimp only
  rw [meter_parkSlots]
  split_ifs
  · rw [hwipe, htid]
  · exact hwipe th

theorem meter_rdThreadDetachLive {th : Thread} (h : th.liveDetached = false) :
    (rdThreadDetachLive th).meter =
      { th.meter with
          active := false
          memEvent := none
          cells := []
          dropped := th.meter.dropped + th.meter.cells.countP fun x => x.state == .armed } := by
  have hcount : (th.slots.map Slot.toCell).countP (fun x => x.state == .armed) = th.armedSlots := by
    rw [List.countP_map]
    rfl
  unfold rdThreadDetachLive
  rw [h]
  simp only [hcount]
  rfl

/-! ## Threads that use no contexts -/

def ContextFree (th : Thread) : Prop := ∀ s ∈ th.slots, s.seedContextId = 0

theorem contextFree_hit {c : SessionCtl} {th : Thread} (hmode : c.callchainMode ≠ .fp)
    (h : ContextFree th) (ht : Hit) : ContextFree (th.hit c ht) := by
  have hstored := view_hit c th ht
  rw [contextKey_eq_none hmode] at hstored
  have hold : ∀ id ∈ (th.contextView.request none).1.ids, id = 0 := by
    intro id hid
    obtain ⟨s, hs, rfl⟩ := List.mem_map.mp hid
    exact h s hs
  have hids := hstored.forall_ids (p := (· = 0)) hold rfl rfl
  intro s hs
  exact hids s.seedContextId (List.mem_map_of_mem hs)

/-! ## Twin sessions -/

def SessionCtl.withContext (c : SessionCtl) (mode : CallchainMode) (bytes capacity : ℕ) :
    SessionCtl :=
  { c with callchainMode := mode, dwarfStackBytes := bytes, dwarfEventCapacity := capacity }

/-- Threads that measure the same in modes `a` and `b`. -/
structure ThreadTwin (a b : CallchainMode) (th th' : Thread) : Prop where
  meter : th.meter = th'.meter
  tid : th.tid = th'.tid
  liveDetached : th.liveDetached = th'.liveDetached
  free : a ≠ .fp → ContextFree th
  free' : b ≠ .fp → ContextFree th'
  pairs : a ≠ .fp → b ≠ .fp → th.pairHist = th'.pairHist ∧
    th.pairHistUsed = th'.pairHistUsed ∧ th.pairHistDropped = th'.pairHistDropped

theorem Tables.addPair_congr (t t' : Tables) (h1 : t.pairHist = t'.pairHist)
    (h2 : t.pairHistUsed = t'.pairHistUsed) (h3 : t.pairHistDropped = t'.pairHistDropped)
    (key : PairKey) (bucket : ℕ) :
    (t.addPair key bucket).pairHist = (t'.addPair key bucket).pairHist ∧
      (t.addPair key bucket).pairHistUsed = (t'.addPair key bucket).pairHistUsed ∧
      (t.addPair key bucket).pairHistDropped = (t'.addPair key bucket).pairHistDropped := by
  unfold Tables.addPair
  rw [h1]
  split_ifs
  · exact ⟨rfl, h2, congrArg (· + 1) h3⟩
  · cases probe PairHistEntry.used (fun e => e.key == key) t'.pairHist 0 none with
    | found i => exact ⟨rfl, h2, h3⟩
    | free i => exact ⟨rfl, congrArg (· + 1) h2, h3⟩
    | full => exact ⟨rfl, h2, congrArg (· + 1) h3⟩

namespace ThreadTwin

variable {c : SessionCtl} {mode : CallchainMode} {bytes capacity : ℕ} {th th' : Thread}

/-- Without contexts on both sides a report files the same pair. -/
theorem pairs_wp (h : ThreadTwin c.callchainMode mode th th') (ha : c.callchainMode ≠ .fp)
    (hb : mode ≠ .fp) (i : ℕ) (regs : Option PtRegs) (env : HitEnv) :
    (rdHandleWpHit c th i regs env).pairHist =
        (rdHandleWpHit (c.withContext mode bytes capacity) th' i regs env).pairHist ∧
      (rdHandleWpHit c th i regs env).pairHistUsed =
        (rdHandleWpHit (c.withContext mode bytes capacity) th' i regs env).pairHistUsed ∧
      (rdHandleWpHit c th i regs env).pairHistDropped =
        (rdHandleWpHit (c.withContext mode bytes capacity) th' i regs env).pairHistDropped := by
  have hctl : (c.withContext mode bytes capacity).meterCtl = c.meterCtl := rfl
  obtain ⟨p1, p2, p3⟩ := h.pairs ha hb
  have hw := tables_rdHandleWpHit c th i regs env
  have hw' := tables_rdHandleWpHit (c.withContext mode bytes capacity) th' i regs env
  rw [hctl, ← h.meter] at hw'
  rcases hw with ⟨hnone, he⟩ | ⟨slot, a, ctx, event, hslot, hrec, hctx, -, he⟩
  · rcases hw' with ⟨-, he'⟩ | ⟨slot', a', ctx', event', -, hrec', -⟩
    · rw [Tables.mk.injEq] at he he'
      obtain ⟨e1, e2, e3, -⟩ := he
      obtain ⟨e1', e2', e3', -⟩ := he'
      rw [e1, e2, e3, e1', e2', e3']
      exact ⟨p1, p2, p3⟩
    · rw [hnone] at hrec'
      cases hrec'
  · rcases hw' with ⟨hnone', -⟩ | ⟨slot', a', ctx', event', hslot', hrec', hctx', -, he'⟩
    · rw [hrec] at hnone'
      cases hnone'
    · obtain ⟨hcell, rfl⟩ := Prod.mk.inj (Option.some.inj (hrec.symm.trans hrec'))
      have hid : slot.seedContextId = 0 := h.free ha slot (List.mem_of_getElem? hslot)
      have hid' : slot'.seedContextId = 0 := h.free' hb slot' (List.mem_of_getElem? hslot')
      have hoff : slot.seedPcOffset = slot'.seedPcOffset := congrArg Cell.seedPcOffset hcell
      have hacc : slot.seedAccess = slot'.seedAccess := congrArg Cell.seedAccess hcell
      rw [hid, hctx, contextOf_eq_zero c th ha, hoff, hacc] at he
      rw [hid', hctx', contextOf_eq_zero _ th' hb] at he'
      have hcongr := Tables.addPair_congr th.tables th'.tables p1 p2 p3
        ⟨slot'.seedPcOffset, 0, (regs.map PtRegs.pc).getD 0, 0⟩
        (rdLog2Bucket (reuseDelta slot'.seedAccess a))
      obtain ⟨q1, q2, q3⟩ := (th.tables.addPair
        ⟨slot'.seedPcOffset, 0, (regs.map PtRegs.pc).getD 0, 0⟩
        (rdLog2Bucket (reuseDelta slot'.seedAccess a))).addEvent_pairs c event
      obtain ⟨q1', q2', q3'⟩ := (th'.tables.addPair
        ⟨slot'.seedPcOffset, 0, (regs.map PtRegs.pc).getD 0, 0⟩
        (rdLog2Bucket (reuseDelta slot'.seedAccess a))).addEvent_pairs
          (c.withContext mode bytes capacity) event'
      rw [← he] at q1 q2 q3
      rw [← he'] at q1' q2' q3'
      exact ⟨q1.trans (hcongr.1.trans q1'.symm), q2.trans (hcongr.2.1.trans q2'.symm),
        q3.trans (hcongr.2.2.trans q3'.symm)⟩

theorem hit (h : ThreadTwin c.callchainMode mode th th') (ht : Hit) :
    ThreadTwin c.callchainMode mode (th.hit c ht)
      (th'.hit (c.withContext mode bytes capacity) ht) := by
  have hf := frame_hit c th ht
  have hf' := frame_hit (c.withContext mode bytes capacity) th' ht
  refine ⟨?_, ?_, ?_, ?_, ?_, ?_⟩
  · rw [meter_hit, meter_hit, h.meter]
    rfl
  · exact (congrArg Frame.tid hf).trans (h.tid.trans (congrArg Frame.tid hf').symm)
  · exact (congrArg Frame.liveDetached hf).trans
      (h.liveDetached.trans (congrArg Frame.liveDetached hf').symm)
  · exact fun ha => contextFree_hit ha (h.free ha) ht
  · exact fun hb => contextFree_hit (c := c.withContext mode bytes capacity) hb (h.free' hb) ht
  · intro ha hb
    cases ht with
    | bp t regs env =>
        have he := tables_rdHandleBpHit c th t regs env
        have he' := tables_rdHandleBpHit (c.withContext mode bytes capacity) th' t regs env
        rw [Tables.mk.injEq] at he he'
        obtain ⟨e1, e2, e3, -⟩ := he
        obtain ⟨e1', e2', e3', -⟩ := he'
        obtain ⟨p1, p2, p3⟩ := h.pairs ha hb
        exact ⟨e1.trans (p1.trans e1'.symm), e2.trans (p2.trans e2'.symm),
          e3.trans (p3.trans e3'.symm)⟩
    | wp i regs env => exact h.pairs_wp ha hb i regs env

theorem window (h : ThreadTwin c.callchainMode mode th th') (b : Bool) :
    ThreadTwin c.callchainMode mode (th.window b) (th'.window b) := by
  have hact : th.active = th'.active := congrArg Meter.active h.meter
  have hfree : ∀ t : Thread, ContextFree t → ContextFree (t.setEvents b) := by
    intro t ht s hs
    obtain ⟨s', hs', rfl⟩ := List.mem_map.mp hs
    exact ht s' hs'
  unfold Thread.window
  rw [hact]
  split_ifs
  · refine ⟨?_, h.tid, h.liveDetached, fun ha => hfree th (h.free ha),
      fun hb => hfree th' (h.free' hb), h.pairs⟩
    rw [meter_setEvents, meter_setEvents, h.meter]
  · exact h

theorem reset (h : ThreadTwin c.callchainMode mode th th') (mods : ℕ → ℤ) :
    ThreadTwin c.callchainMode mode (rdResetThreadLocked c th mods).2
      (rdResetThreadLocked (c.withContext mode bytes capacity) th' mods).2 := by
  have hwiped : ∀ (d : SessionCtl) (t : Thread), ∃ p : Thread,
      (rdResetThreadLocked d t mods).2 = p.wipe ∧ p.tid = t.tid ∧
        p.liveDetached = t.liveDetached ∧ p.pairHist = t.pairHist := by
    intro d t
    have hpair : ∀ n, (parkSlots d mods n t).1.pairHist = t.pairHist := by
      intro n
      induction n with
      | zero => rfl
      | succ n ih =>
          simp only [parkSlots]
          exact (congrArg Tables.pairHist (tables_rdModifySlot d _ n _ idleWpLen (mods n))).trans ih
    have hf := frame_parkSlots d mods d.wpCapacity t
    unfold rdResetThreadLocked
    cases t.active with
    | true => exact ⟨_, rfl, congrArg Frame.tid hf, congrArg Frame.liveDetached hf, hpair _⟩
    | false => exact ⟨_, rfl, rfl, rfl, rfl⟩
  have hmeter : (rdResetThreadLocked c th mods).2.meter =
      (rdResetThreadLocked (c.withContext mode bytes capacity) th' mods).2.meter := by
    rw [meter_rdResetThreadLocked, meter_rdResetThreadLocked, h.meter, h.tid]
    rfl
  obtain ⟨p, hp, p1, p2, p3⟩ := hwiped c th
  obtain ⟨p', hp', p1', p2', p3'⟩ := hwiped (c.withContext mode bytes capacity) th'
  have hfree : ∀ t : Thread, ContextFree t.wipe := by
    intro t s hs
    obtain ⟨s', -, rfl⟩ := List.mem_map.mp hs
    rfl
  rw [hp, hp'] at hmeter ⊢
  refine ⟨hmeter, p1.trans (h.tid.trans p1'.symm), p2.trans (h.liveDetached.trans p2'.symm),
    fun _ => hfree p, fun _ => hfree p', fun ha hb => ⟨?_, rfl, rfl⟩⟩
  change p.pairHist.map _ = p'.pairHist.map _
  rw [p3, p3', (h.pairs ha hb).1]

theorem detach (h : ThreadTwin c.callchainMode mode th th') :
    ThreadTwin c.callchainMode mode (rdThreadDetachLive th) (rdThreadDetachLive th') := by
  cases hd : th.liveDetached with
  | true =>
      have hd' : th'.liveDetached = true := h.liveDetached.symm.trans hd
      have he : rdThreadDetachLive th = th := by simp [rdThreadDetachLive, hd]
      have he' : rdThreadDetachLive th' = th' := by simp [rdThreadDetachLive, hd']
      rw [he, he']
      exact h
  | false =>
      have hd' : th'.liveDetached = false := h.liveDetached.symm.trans hd
      have hmeter : (rdThreadDetachLive th).meter = (rdThreadDetachLive th').meter := by
        rw [meter_rdThreadDetachLive hd, meter_rdThreadDetachLive hd', h.meter]
      unfold rdThreadDetachLive at hmeter ⊢
      rw [hd, hd'] at hmeter ⊢
      refine ⟨hmeter, h.tid, rfl, ?_, ?_, h.pairs⟩
      · intro _ s hs
        simp at hs
      · intro _ s hs
        simp at hs

theorem fresh (c : SessionCtl) (mode : CallchainMode) (bytes capacity : ℕ) (arg : ThreadRegister)
    (rng : U64) : ThreadTwin c.callchainMode mode ({ newThread c arg with rng := rng } : Thread)
      ({ newThread (c.withContext mode bytes capacity) arg with rng := rng } : Thread) := by
  have hfree : ∀ d : SessionCtl, ContextFree (newThread d arg) := by
    intro d
    rw [newThread_eq]
    intro s hs
    obtain ⟨s', hs', rfl⟩ := List.mem_map.mp hs
    obtain ⟨i, -, rfl⟩ := List.mem_map.mp hs'
    rfl
  have hcells : (newThread c arg).slots.map Slot.toCell =
      (newThread (c.withContext mode bytes capacity) arg).slots.map Slot.toCell := by
    rw [newThread_eq, newThread_eq]
    simp only [Thread.setEvents, setupThread, List.map_map]
    rfl
  refine ⟨?_, ?_, ?_, fun _ => hfree c, fun _ => hfree _, fun _ _ => ?_⟩
  · simp only [Thread.meter, hcells]
    rw [newThread_eq, newThread_eq]
    rfl
  · rw [newThread_eq, newThread_eq]
    rfl
  · rw [newThread_eq, newThread_eq]
    rfl
  · rw [newThread_eq, newThread_eq]
    exact ⟨rfl, rfl, rfl⟩

theorem new (c : SessionCtl) (mode : CallchainMode) (bytes capacity : ℕ) (arg : ThreadRegister) :
    ThreadTwin c.callchainMode mode (newThread c arg)
      (newThread (c.withContext mode bytes capacity) arg) := by
  have hrng : ∀ d : SessionCtl, newThread d arg =
      ({ newThread d arg with rng := initialRng arg.tid } : Thread) := by
    intro d
    rw [newThread_eq]
    rfl
  rw [hrng c, hrng (c.withContext mode bytes capacity)]
  exact fresh c mode bytes capacity arg (initialRng arg.tid)

end ThreadTwin

structure SessionTwin (mode : CallchainMode) (bytes capacity : ℕ) (s s' : Session) : Prop where
  configured : s.configured = true
  ctl : s'.toSessionCtl = s.toSessionCtl.withContext mode bytes capacity
  threads : List.Forall₂ (ThreadTwin s.callchainMode mode) s.threads s'.threads

namespace SessionTwin

variable {mode : CallchainMode} {bytes capacity : ℕ} {s s' : Session}

theorem findIdx (h : SessionTwin mode bytes capacity s s') (tid : ℤ) :
    rdFindActiveThreadByTid s tid = rdFindActiveThreadByTid s' tid := by
  refine findIdx?_forall₂ h.threads ?_
  intro th th' htwin
  have hact : th.active = th'.active := congrArg Meter.active htwin.meter
  simp only [htwin.tid, hact]

theorem registerOk_iff (h : SessionTwin mode bytes capacity s s') (arg : ThreadRegister)
    (env : RegisterEnv) : RegisterOk s arg env ↔ RegisterOk s' arg env := by
  have hf := h.findIdx arg.tid
  have h1 : s'.configured = s.configured := by
    rw [h.ctl]
    rfl
  have h2 : s'.targetsLoaded = s.targetsLoaded := by
    rw [h.ctl]
    rfl
  have h3 : s'.ownerTgid = s.ownerTgid := by
    rw [h.ctl]
    rfl
  have h4 : s'.targetCount = s.targetCount := by
    rw [h.ctl]
    rfl
  have h5 : s'.wpCapacity = s.wpCapacity := by
    rw [h.ctl]
    rfl
  constructor
  · rintro ⟨a1, a2, a3, a4, a5, a6, a7, a8, a9, a10⟩
    exact ⟨h1.trans a1, h2.trans a2, hf ▸ a3, a4, h3.symm ▸ a5, a6, a7, a8, h4.symm ▸ a9,
      h5.symm ▸ a10⟩
  · rintro ⟨a1, a2, a3, a4, a5, a6, a7, a8, a9, a10⟩
    exact ⟨h1.symm.trans a1, h2.symm.trans a2, hf.trans a3, a4, h3 ▸ a5, a6, a7, a8, h4 ▸ a9,
      h5 ▸ a10⟩

theorem setWindow (h : SessionTwin mode bytes capacity s s') (b : Bool) :
    SessionTwin mode bytes capacity (s.setWindow b) (s'.setWindow b) := by
  refine ⟨h.configured, ?_, ?_⟩
  · exact congrArg (fun c : SessionCtl => c.withRunning b) h.ctl
  · refine List.forall₂_map_left_iff.mpr (List.forall₂_map_right_iff.mpr (h.threads.imp ?_))
    intro th th' htwin
    exact htwin.window (c := s.toSessionCtl) b

theorem configured_right (h : SessionTwin mode bytes capacity s s') : s'.configured = true := by
  rw [h.ctl]
  exact h.configured

theorem configSession (h : SessionTwin mode bytes capacity s s') (cfg : SessionCfg) :
    SessionTwin mode bytes capacity (rdSessionConfigLocked s cfg).2
      (rdSessionConfigLocked s' cfg).2 := by
  unfold rdSessionConfigLocked
  rw [if_pos (Or.inl h.configured), if_pos (Or.inl h.configured_right)]
  exact h

theorem loadTargets (h : SessionTwin mode bytes capacity s s') (targets : List Target)
    (memdupRet : ℤ) (allocOk : Bool) :
    SessionTwin mode bytes capacity (rdLoadTargetsLocked s targets memdupRet allocOk).2
      (rdLoadTargetsLocked s' targets memdupRet allocOk).2 := by
  have hl : s'.targetsLoaded = s.targetsLoaded := by
    rw [h.ctl]
    rfl
  unfold rdLoadTargetsLocked
  by_cases hloaded : s.targetsLoaded = true
  · rw [if_pos (Or.inr hloaded), if_pos (Or.inr (hl.trans hloaded))]
    exact h
  have hfree : ¬ (s.configured = false ∨ s.targetsLoaded = true) := by
    simp [h.configured, hloaded]
  have hfree' : ¬ (s'.configured = false ∨ s'.targetsLoaded = true) := by
    simp [h.configured_right, hl, hloaded]
  rw [if_neg hfree, if_neg hfree']
  split_ifs
  · exact h
  · exact h
  · exact h
  · exact h
  · refine ⟨h.configured, ?_, h.threads⟩
    exact congrArg (fun c : SessionCtl => { c with
      targets := targets, targetsLoaded := true }) h.ctl

theorem registerThread (h : SessionTwin mode bytes capacity s s') (arg : ThreadRegister)
    (env : RegisterEnv) :
    SessionTwin mode bytes capacity (rdRegisterThreadLocked s arg env).2
      (rdRegisterThreadLocked s' arg env).2 := by
  by_cases hok : RegisterOk s arg env
  · rw [rdRegisterThreadLocked_of_ok hok,
      rdRegisterThreadLocked_of_ok ((h.registerOk_iff arg env).mp hok)]
    refine ⟨h.configured, h.ctl, List.rel_append h.threads (.cons ?_ .nil)⟩
    rw [h.ctl]
    exact ThreadTwin.new s.toSessionCtl mode bytes capacity arg
  · rw [rdRegisterThreadLocked_snd_of_not_ok hok,
      rdRegisterThreadLocked_snd_of_not_ok (fun hh => hok ((h.registerOk_iff arg env).mpr hh))]
    exact h

theorem unregisterThread (h : SessionTwin mode bytes capacity s s') (tid : ℤ) :
    SessionTwin mode bytes capacity (rdUnregisterThreadLocked s tid).2
      (rdUnregisterThreadLocked s' tid).2 := by
  unfold rdUnregisterThreadLocked
  rw [← h.findIdx tid]
  cases rdFindActiveThreadByTid s tid with
  | none => exact h
  | some k =>
      refine ⟨h.configured, h.ctl, forall₂_modify h.threads k ?_⟩
      intro th th' htwin
      exact htwin.detach (c := s.toSessionCtl)

theorem reset_forall₂ (h : SessionTwin mode bytes capacity s s') (mods : ℕ → ℕ → ℤ) (k : ℕ)
    {l l' : List Thread} (hl : List.Forall₂ (ThreadTwin s.callchainMode mode) l l') :
    List.Forall₂ (ThreadTwin s.callchainMode mode) (resetThreads s.toSessionCtl mods k l).2
      (resetThreads s'.toSessionCtl mods k l').2 := by
  induction hl generalizing k with
  | nil => exact .nil
  | cons htwin _ ih =>
      refine .cons ?_ (ih (k + 1))
      rw [h.ctl]
      exact htwin.reset (c := s.toSessionCtl) (mods k)

theorem resetSession (h : SessionTwin mode bytes capacity s s') (mods : ℕ → ℕ → ℤ) :
    SessionTwin mode bytes capacity (rdResetSessionLocked s mods).2
      (rdResetSessionLocked s' mods).2 := by
  have hr : s'.running = s.running := by
    rw [h.ctl]
    rfl
  unfold rdResetSessionLocked
  rw [hr]
  split_ifs
  · exact h
  · exact ⟨h.configured, h.ctl, h.reset_forall₂ mods 0 h.threads⟩

theorem step (h : SessionTwin mode bytes capacity s s') (e : SessionEvent) :
    SessionTwin mode bytes capacity (s.step e) (s'.step e) := by
  cases e with
  | hit k ht =>
      refine ⟨h.configured, h.ctl, forall₂_modify h.threads k ?_⟩
      intro th th' htwin
      rw [h.ctl]
      exact htwin.hit (c := s.toSessionCtl) ht
  | ioctl cmd =>
      cases cmd with
      | configSession cfg => exact h.configSession cfg
      | loadTargets targets memdupRet allocOk =>
          exact h.loadTargets targets memdupRet allocOk
      | registerThread arg env => exact h.registerThread arg env
      | unregisterThread tid => exact h.unregisterThread tid
      | startWindow => exact h.setWindow true
      | stopWindow => exact h.setWindow false
      | resetSession mods => exact h.resetSession mods

theorem run (h : SessionTwin mode bytes capacity s s') (es : List SessionEvent) :
    SessionTwin mode bytes capacity (s.run es) (s'.run es) := by
  induction es generalizing s s' with
  | nil => exact h
  | cons e es ih => exact ih (h.step e)

end SessionTwin

def startSession (c : SessionCtl) (starts : List (ThreadRegister × U64)) : Session :=
  { c with threads := starts.map fun p => { newThread c p.1 with rng := p.2 } }

/-- Call-context parameters never show in the base measurement, after any events; and without
frame-pointer contexts they do not show in the pair table. -/
theorem context_capture_independent (c : SessionCtl) (hc : c.configured = true)
    (mode : CallchainMode) (bytes capacity : ℕ) (starts : List (ThreadRegister × U64))
    (es : List SessionEvent) :
    List.Forall₂ (fun th th' : Thread =>
      (th.log2Hist = th'.log2Hist ∧ th.hits = th'.hits ∧ th.evictions = th'.evictions ∧
        th.dropped = th'.dropped ∧ th.candidateSamples = th'.candidateSamples ∧
        th.reservoirSeen = th'.reservoirSeen ∧ th.reservoirAccepted = th'.reservoirAccepted ∧
        th.reservoirRejected = th'.reservoirRejected ∧ th.rng = th'.rng ∧
        th.slots.map Slot.toCell = th'.slots.map Slot.toCell) ∧
      (c.callchainMode ≠ .fp → mode ≠ .fp → th.pairHist = th'.pairHist ∧
        th.pairHistUsed = th'.pairHistUsed ∧ th.pairHistDropped = th'.pairHistDropped))
      ((startSession c starts).run es).threads
      ((startSession (c.withContext mode bytes capacity) starts).run es).threads := by
  have hstart : SessionTwin mode bytes capacity (startSession c starts)
      (startSession (c.withContext mode bytes capacity) starts) := by
    refine ⟨hc, rfl, ?_⟩
    refine List.forall₂_map_left_iff.mpr (List.forall₂_map_right_iff.mpr ?_)
    refine List.forall₂_same.mpr ?_
    intro p _
    exact ThreadTwin.fresh c mode bytes capacity p.1 p.2
  have htwin := hstart.run es
  have hmode : ((startSession c starts).run es).callchainMode = c.callchainMode :=
    Session.run_callchainMode (s := startSession c starts) hc es
  rw [← hmode]
  refine htwin.threads.imp ?_
  intro th th' ht
  have hm := ht.meter
  rw [Meter.mk.injEq] at hm
  obtain ⟨-, -, m1, m2, m3, m4, m5, m6, m7, m8, m9, m10⟩ := hm
  exact ⟨⟨m2, m7, m8, m9, m3, m4, m5, m6, m10, m1⟩, ht.pairs⟩

theorem context_capture_independent_small : ((startSession ((smallSession 0).toSessionCtl)
      [(smallThread, 5)]).run [.hit 0 (.bp 0 (some smallRegs) (smallHitEnv 5))]).threads.map
        Thread.rng =
    ((startSession ((smallSession 0).toSessionCtl.withContext .dwarf 16 1)
      [(smallThread, 5)]).run [.hit 0 (.bp 0 (some smallRegs) (smallHitEnv 5))]).threads.map
        Thread.rng := by
  have h := context_capture_independent (smallSession 0).toSessionCtl rfl .dwarf 16 1
    [(smallThread, 5)] [.hit 0 (.bp 0 (some smallRegs) (smallHitEnv 5))]
  refine List.forall₂_eq_eq_eq ▸ List.forall₂_map_left_iff.mpr (List.forall₂_map_right_iff.mpr ?_)
  exact h.imp fun th th' hagree => hagree.1.2.2.2.2.2.2.2.2.1

end RdSpeTool
