import RdSpeTool.SessionInvariant

/-!
# The shape of registered threads

In a reachable session every thread has the frame of a newly registered thread, or that of one
detached again, and its watchpoints are enabled exactly while a window is open. A reset whose
moves all succeed depends on the frame only, so it rebuilds the newly registered thread.
-/

namespace RdSpeTool

open ProbeTable

def Frame.setEvents (b : Bool) (f : Frame) : Frame :=
  { f with
      memEvent := f.memEvent.map fun _ => b
      bpEvents := f.bpEvents.map (PerfEvent.setEnabled b) }

theorem frame_setEvents (b : Bool) (th : Thread) :
    (th.setEvents b).frame = th.frame.setEvents b := by
  simp only [Thread.frame, Thread.setEvents, Frame.setEvents, List.map_map]
  rfl

theorem setEvents_setEvents (a b : Bool) (th : Thread) :
    (th.setEvents a).setEvents b = th.setEvents b := by
  simp only [Thread.setEvents, List.map_map, Option.map_map]
  rfl

theorem newThread_eq (c : SessionCtl) (arg : ThreadRegister) :
    newThread c arg = (setupThread c (allocThread arg)).setEvents c.running := by
  unfold newThread
  cases c.running with
  | true => rfl
  | false =>
      simp [setupThread, Thread.setEvents, PerfEvent.setEnabled, freshSlot, Function.comp_def]

theorem newThread_withRunning (c : SessionCtl) (b : Bool) (arg : ThreadRegister) :
    newThread (c.withRunning b) arg = (newThread c arg).setEvents b := by
  rw [newThread_eq, newThread_eq, setEvents_setEvents]
  rfl

def Frame.detach (f : Frame) : Frame :=
  if f.liveDetached then f
  else
    { f with
        active := false
        liveDetached := true
        memEvent := none
        bpEvents := []
        slots := [] }

theorem frame_rdThreadDetachLive (th : Thread) :
    (rdThreadDetachLive th).frame = th.frame.detach := by
  unfold rdThreadDetachLive Frame.detach
  dsimp only
  split_ifs <;> rfl

theorem frame_parkSlots (c : SessionCtl) (mods : ℕ → ℤ) (n : ℕ) (th : Thread) :
    (parkSlots c mods n th).1.frame = th.frame := by
  induction n with
  | zero => rfl
  | succ n ih =>
      simp only [parkSlots]
      rw [frame_rdModifySlot]
      exact ih

theorem Slot.frame_reset (s : Slot) : s.reset.frame = s.frame := by
  simp [Slot.frame, Slot.reset, Slot.clear, Cell.clear]

theorem frame_wipe {th : Thread} (h : ∀ e ∈ th.pairHist, e.buckets.length = log2Buckets) :
    th.wipe.frame = th.frame := by
  have hpair : (th.pairHist.map fun _ => PairHistEntry.zero).map (fun e => e.buckets.length) =
      th.pairHist.map fun e => e.buckets.length := by
    rw [List.map_map]
    refine List.map_congr_left fun e he => ?_
    simp [PairHistEntry.zero, h e he]
  have hdwarf : (th.dwarfEvents.map fun es => es.map fun _ => DwarfEvent.zero).map List.length =
      th.dwarfEvents.map List.length := by
    cases th.dwarfEvents <;> simp
  have hslots : (th.slots.map Slot.reset).map Slot.frame = th.slots.map Slot.frame := by
    rw [List.map_map]
    exact List.map_congr_left fun s _ => s.frame_reset
  simp only [Thread.frame, Thread.wipe, hpair, hdwarf, hslots, List.length_map]

structure Shaped (c : SessionCtl) (th : Thread) : Prop where
  frame : ∃ arg, th.frame = (newThread c arg).frame ∨
    th.frame = (rdThreadDetachLive (newThread c arg)).frame
  enabled : ∀ s ∈ th.slots, s.wpEvent.enabled = c.running

namespace Shaped

variable {c : SessionCtl} {th : Thread}

theorem of_live (h : Shaped c th) (ha : th.active = true) :
    ∃ arg, th.frame = (newThread c arg).frame := by
  obtain ⟨arg, hf | hf⟩ := h.frame
  · exact ⟨arg, hf⟩
  · have hact : th.active = (rdThreadDetachLive (newThread c arg)).active :=
      congrArg Frame.active hf
    have hoff : (rdThreadDetachLive (newThread c arg)).active = false := by
      rw [newThread_eq]
      rfl
    rw [hact, hoff] at ha
    cases ha

theorem of_detached (h : Shaped c th) (ha : th.active = false) :
    ∃ arg, th.frame = (rdThreadDetachLive (newThread c arg)).frame := by
  obtain ⟨arg, hf | hf⟩ := h.frame
  · have hact : th.active = (newThread c arg).active := congrArg Frame.active hf
    have hon : (newThread c arg).active = true := by
      rw [newThread_eq]
      rfl
    rw [hact, hon] at ha
    cases ha
  · exact ⟨arg, hf⟩

theorem slots_length (h : Shaped c th) (ha : th.active = true) :
    th.slots.length = c.wpCapacity := by
  obtain ⟨arg, hf⟩ := h.of_live ha
  have hl := congrArg (fun f : Frame => f.slots.length) hf
  simpa [newThread_eq, setupThread, Thread.setEvents] using hl

theorem slots_nil (h : Shaped c th) (ha : th.active = false) : th.slots = [] := by
  obtain ⟨arg, hf⟩ := h.of_detached ha
  have hl := congrArg (fun f : Frame => f.slots.length) hf
  simpa [newThread_eq, setupThread, Thread.setEvents, rdThreadDetachLive, allocThread] using hl

theorem liveDetached (h : Shaped c th) (ha : th.active = true) : th.liveDetached = false := by
  obtain ⟨arg, hf⟩ := h.of_live ha
  have hd := congrArg Frame.liveDetached hf
  simpa [newThread_eq, setupThread, Thread.setEvents, allocThread] using hd

theorem sized (h : Shaped c th) (hc : c.Ready) (ha : th.active = true) :
    th.meter.Sized c.meterCtl :=
  ⟨by simpa using h.slots_length ha, hc.wpCapacity_pos⟩

/-- The result arrays keep their sizes after detaching. -/
theorem tables (h : Shaped c th) :
    th.log2Hist.length = c.targetCount * log2Buckets ∧
      th.pairHist.map (fun e => e.buckets.length) = List.replicate maxPairHists log2Buckets ∧
      th.contexts.length = maxContexts ∧ th.dwarfEvents.map List.length =
        if c.callchainMode = .dwarf then some c.dwarfEventCapacity else none := by
  have hnew : ∀ arg, (newThread c arg).log2Hist.length = c.targetCount * log2Buckets ∧
      (newThread c arg).pairHist.map (fun e => e.buckets.length) =
        List.replicate maxPairHists log2Buckets ∧
      (newThread c arg).contexts.length = maxContexts ∧
      (newThread c arg).dwarfEvents.map List.length =
        if c.callchainMode = .dwarf then some c.dwarfEventCapacity else none := by
    intro arg
    rw [newThread_eq]
    refine ⟨?_, ?_, ?_, ?_⟩
    · simp [setupThread, Thread.setEvents]
    · simp [setupThread, Thread.setEvents, PairHistEntry.zero]
    · simp [setupThread, Thread.setEvents]
    · simp only [setupThread, Thread.setEvents]
      split_ifs <;> simp
  have hdetach : ∀ t : Thread, (rdThreadDetachLive t).log2Hist = t.log2Hist ∧
      (rdThreadDetachLive t).pairHist = t.pairHist ∧ (rdThreadDetachLive t).contexts = t.contexts ∧
      (rdThreadDetachLive t).dwarfEvents = t.dwarfEvents := by
    intro t
    unfold rdThreadDetachLive
    split_ifs <;> exact ⟨rfl, rfl, rfl, rfl⟩
  obtain ⟨arg, hf | hf⟩ := h.frame
  · rw [Frame.mk.injEq] at hf
    obtain ⟨-, -, -, -, -, -, -, -, -, h1, h2, h3, h4⟩ := hf
    rw [h1, h2, h3, h4]
    exact hnew arg
  · rw [Frame.mk.injEq] at hf
    obtain ⟨-, -, -, -, -, -, -, -, -, h1, h2, h3, h4⟩ := hf
    obtain ⟨d1, d2, d3, d4⟩ := hdetach (newThread c arg)
    rw [h1, h2, h3, h4, d1, d2, d3, d4]
    exact hnew arg

end Shaped

/-- Hits program watchpoints with the running flag of the session. -/
theorem Meter.hit_enabled {k : MeterCtl} {m : Meter} (hm : m.Sized k) (h : Hit)
    (he : ∀ x ∈ m.cells, x.wpEvent.enabled = k.running) :
    ∀ y ∈ (m.hit k h).cells, y.wpEvent.enabled = k.running := by
  intro y hy
  obtain ⟨j, hj⟩ := List.mem_iff_getElem?.mp hy
  have hpark : ∀ (x : Cell) (addr : U64) (ret : ℤ), x.wpEvent.enabled = k.running →
      k.running = true → (x.park ⟨addr, idleWpLen, true⟩ ret).wpEvent.enabled = k.running := by
    intro x addr ret hx hrun
    unfold Cell.park
    split_ifs
    · exact hrun.symm
    · exact hx
  cases h with
  | bp t regs env =>
      obtain ⟨x, hx, hstep⟩ := bpHit_cell hm hj
      have hen := he x (List.mem_of_getElem? hx)
      cases hstep with
      | kept hu => exact (congrArg (fun c : Cell => c.wpEvent.enabled) hu).trans hen
      | armed r target a x' hadm hu hy =>
          rw [hy]
          exact hadm.running.symm
      | dropped r target a x' hadm hu hy =>
          rw [hy]
          exact hpark _ _ _ ((congrArg (fun c : Cell => c.wpEvent.enabled) hu).trans hen)
            hadm.running
  | wp i regs env =>
      rcases wpHit_cases hm i env with ⟨hsame, -⟩ | ⟨-, -, -, -, hrun, -⟩
      · have hj' : (m.wpHit k i env).cells[j]? = some y := hj
        rw [hsame] at hj'
        exact he y (List.mem_of_getElem? hj')
      · obtain ⟨x, hx, hstep⟩ := wpHit_cell hm hj
        have hen := he x (List.mem_of_getElem? hx)
        cases hstep with
        | kept hy => exact hy ▸ hen
        | skipped _ _ _ hy => exact hy ▸ hen
        | freed _ _ _ hy =>
            rw [hy]
            exact hpark _ _ _ hen hrun

theorem enabled_parkSlots {c : SessionCtl} (hr : c.running = false) (mods : ℕ → ℤ) (n : ℕ)
    {th : Thread} (h : ∀ s ∈ th.slots, s.wpEvent.enabled = false) :
    ∀ s ∈ (parkSlots c mods n th).1.slots, s.wpEvent.enabled = false := by
  induction n with
  | zero => exact h
  | succ n ih =>
      simp only [parkSlots]
      generalize parkSlots c mods n th = prev at ih
      unfold rdModifySlot
      split_ifs
      · exact ih
      · intro s hs
        obtain ⟨j, hj⟩ := List.mem_iff_getElem?.mp hs
        obtain ⟨s', hs', ⟨-, rfl⟩ | ⟨-, rfl⟩⟩ := getElem?_modify_cases hj
        · simp [Slot.mapCell, Cell.watch, hr]
        · exact ih s (List.mem_of_getElem? hs')
      · exact ih

namespace Shaped

variable {c : SessionCtl} {th : Thread}

theorem newThread (c : SessionCtl) (arg : ThreadRegister) : Shaped c (newThread c arg) := by
  refine ⟨⟨arg, Or.inl rfl⟩, ?_⟩
  rw [newThread_eq]
  intro s hs
  obtain ⟨s', -, rfl⟩ := List.mem_map.mp hs
  rfl

theorem reset_parked (h : Shaped c th) (mods : ℕ → ℤ) :
    ∃ p : Thread, (rdResetThreadLocked c th mods).2 = p.wipe ∧ p.frame = th.frame ∧
      (c.running = false → ∀ s ∈ p.slots, s.wpEvent.enabled = false) := by
  unfold rdResetThreadLocked
  have hen : c.running = false → ∀ s ∈ th.slots, s.wpEvent.enabled = false :=
    fun hr s hs => (h.enabled s hs).trans hr
  cases th.active with
  | true => exact ⟨_, rfl, frame_parkSlots c mods c.wpCapacity th,
      fun hr => enabled_parkSlots hr mods c.wpCapacity (hen hr)⟩
  | false => exact ⟨_, rfl, rfl, hen⟩

theorem frame_reset (h : Shaped c th) (mods : ℕ → ℤ) :
    (rdResetThreadLocked c th mods).2.frame = th.frame := by
  obtain ⟨p, hp, hf, -⟩ := h.reset_parked mods
  rw [hp, ← hf]
  apply frame_wipe
  intro e he
  have hmem : e.buckets.length ∈ p.pairHist.map fun e => e.buckets.length :=
    List.mem_map_of_mem he
  have hpair : p.pairHist.map (fun e => e.buckets.length) =
      th.pairHist.map fun e => e.buckets.length := congrArg Frame.pairHist hf
  rw [hpair, h.tables.2.1] at hmem
  exact List.eq_of_mem_replicate hmem

theorem step {c' : SessionCtl} {th' : Thread} (hc : c.Ready) (h : Shaped c th)
    (hstep : ThreadStep c th c' th') : Shaped c' th' := by
  cases hstep with
  | same => exact h
  | hit ht ha =>
      refine ⟨?_, ?_⟩
      · rw [frame_hit]
        exact h.frame
      · intro s hs
        have hcell : s.toCell ∈ (th.meter.hit c.meterCtl ht).cells := by
          rw [← meter_hit]
          exact List.mem_map_of_mem hs
        refine Meter.hit_enabled (h.sized hc ha) ht ?_ s.toCell hcell
        intro x hx
        obtain ⟨s', hs', rfl⟩ := List.mem_map.mp hx
        exact h.enabled s' hs'
  | window b =>
      cases ha : th.active with
      | true =>
          have hw : th.window b = th.setEvents b := by simp [Thread.window, ha]
          obtain ⟨arg, hf⟩ := h.of_live ha
          rw [hw]
          refine ⟨⟨arg, Or.inl ?_⟩, ?_⟩
          · rw [newThread_withRunning, frame_setEvents, frame_setEvents, hf]
          · intro s hs
            obtain ⟨s', -, rfl⟩ := List.mem_map.mp hs
            rfl
      | false =>
          have hw : th.window b = th := by simp [Thread.window, ha]
          obtain ⟨arg, hf⟩ := h.of_detached ha
          rw [hw]
          refine ⟨⟨arg, Or.inr ?_⟩, ?_⟩
          · rw [hf, newThread_withRunning, newThread_eq]
            rfl
          · rw [h.slots_nil ha]
            intro s hs
            simp at hs
  | reset hr mods =>
      refine ⟨?_, ?_⟩
      · rw [h.frame_reset mods]
        exact h.frame
      · obtain ⟨p, hp, -, hen⟩ := h.reset_parked mods
        rw [hp, hr]
        intro s hs
        obtain ⟨s', hs', rfl⟩ := List.mem_map.mp hs
        exact hen hr s' hs'
  | detach ha =>
      obtain ⟨arg, hf⟩ := h.of_live ha
      refine ⟨⟨arg, Or.inr ?_⟩, ?_⟩
      · rw [frame_rdThreadDetachLive, frame_rdThreadDetachLive, hf]
      · unfold rdThreadDetachLive
        rw [h.liveDetached ha]
        intro s hs
        simp at hs

end Shaped

namespace Session.Reachable

variable {s : Session} {th : Thread}

theorem shaped (h : s.Reachable) (hth : th ∈ s.threads) : Shaped s.toSessionCtl th :=
  h.thread_induction (I := Shaped) (fun c arg _ => Shaped.newThread c arg)
    (fun _ _ _ _ hc hi hstep => hi.step hc hstep) hth

/-- The rule with the shape of the thread at hand. -/
theorem shaped_induction {I : SessionCtl → Thread → Prop}
    (hnew : ∀ c arg, c.Ready → I c (newThread c arg))
    (hstep : ∀ c th c' th', c.Ready → Shaped c th → I c th → ThreadStep c th c' th' → I c' th')
    (h : s.Reachable) (hth : th ∈ s.threads) : I s.toSessionCtl th := by
  have hboth := h.thread_induction (I := fun c th => Shaped c th ∧ I c th)
    (fun c arg hc => ⟨Shaped.newThread c arg, hnew c arg hc⟩)
    (fun c th c' th' hc hi hts => ⟨hi.1.step hc hts, hstep c th c' th' hc hi.1 hi.2 hts⟩) hth
  exact hboth.2

theorem ready (h : s.Reachable) (hth : th ∈ s.threads) : s.toSessionCtl.Ready :=
  h.wellFormed.ready (h.wellFormed.threads (List.ne_nil_of_mem hth))

end Session.Reachable

theorem Session.run_append (s : Session) (es fs : List SessionEvent) :
    s.run (es ++ fs) = (s.run es).run fs := List.foldl_append

theorem frame_hits (c : SessionCtl) (hits : List Hit) (th : Thread) :
    (hits.foldl (fun th ht => th.hit c ht) th).frame = th.frame := by
  induction hits generalizing th with
  | nil => rfl
  | cons ht hits ih => exact (ih (th.hit c ht)).trans (frame_hit c th ht)

theorem meter_hits (c : SessionCtl) (hits : List Hit) (th : Thread) :
    (hits.foldl (fun th ht => th.hit c ht) th).meter =
      hits.foldl (fun m ht => m.hit c.meterCtl ht) th.meter := by
  induction hits generalizing th with
  | nil => rfl
  | cons ht hits ih =>
      have hrest := ih (th.hit c ht)
      rw [meter_hit] at hrest
      exact hrest

/-! ## A run with a recorded hit -/

/-- Memory in which every byte holds the end of its address. -/
def numberedMem : UserMem := ⟨fun a => some (a.setWidth 8), fun _ _ => true⟩

def numberedEnv (reading : U64) : HitEnv := ⟨some reading, numberedMem, 0, 0⟩

/-- A sampled load whose watchpoint reports its own access and then a reuse. -/
def reuseHits : List Hit :=
  [.bp 0 (some smallRegs) (numberedEnv 5), .wp 0 (some smallRegs) (numberedEnv 6),
    .wp 0 (some smallRegs) (numberedEnv 9)]

def hitRun (mode : ℕ) : List SessionEvent := smallRun mode ++ reuseHits.map (SessionEvent.hit 0)

def hitThread (mode : ℕ) : Thread :=
  reuseHits.foldl (fun th ht => th.hit (smallSession mode).toSessionCtl ht)
    (newThread (smallSession mode).toSessionCtl smallThread)

theorem run_hits (c : SessionCtl) (hits : List Hit) (th : Thread) :
    (⟨c, [th]⟩ : Session).run (hits.map (SessionEvent.hit 0)) =
      ⟨c, [hits.foldl (fun th ht => th.hit c ht) th]⟩ := by
  induction hits generalizing th with
  | nil => rfl
  | cons ht hits ih => exact ih (th.hit c ht)

theorem run_smallRun_hits (mode : ℕ) (hmode : mode < 3) (hits : List Hit) :
    (rdWpctlOpen 1).run (smallRun mode ++ hits.map (SessionEvent.hit 0)) =
      ⟨(smallSession mode).toSessionCtl,
        [hits.foldl (fun th ht => th.hit (smallSession mode).toSessionCtl ht)
          (newThread (smallSession mode).toSessionCtl smallThread)]⟩ := by
  have hstart : (rdWpctlOpen 1).run (smallRun mode) = ⟨(smallSession mode).toSessionCtl,
      [newThread (smallSession mode).toSessionCtl smallThread]⟩ := by
    interval_cases mode <;> rfl
  rw [Session.run_append, hstart, run_hits]

theorem hitRun_threads (mode : ℕ) (hmode : mode < 3) : (rdWpctlOpen 1).run (hitRun mode) =
    ⟨(smallSession mode).toSessionCtl, [hitThread mode]⟩ := run_smallRun_hits mode hmode reuseHits

theorem hitThread_mem (mode : ℕ) (hmode : mode < 3) :
    hitThread mode ∈ ((rdWpctlOpen 1).run (hitRun mode)).threads := by
  rw [hitRun_threads mode hmode]
  exact List.mem_singleton_self _

theorem hitThread_meter (mode : ℕ) : (hitThread mode).meter =
    reuseHits.foldl (fun m ht => m.hit (smallSession mode).meterCtl ht)
      (newThread (smallSession mode).toSessionCtl smallThread).meter := meter_hits ..

theorem hitThread_spec (mode : ℕ) (hmode : mode < 3) :
    (hitThread mode).tid = 7 ∧ (hitThread mode).hits = 1 ∧
      (hitThread mode).candidateSamples = 1 := by
  have hframe : (hitThread mode).frame =
      (newThread (smallSession mode).toSessionCtl smallThread).frame := frame_hits ..
  have hmeter := hitThread_meter mode
  have htid := congrArg Frame.tid hframe
  have hhits := congrArg Meter.hits hmeter
  have hcand := congrArg Meter.candidateSamples hmeter
  refine ⟨htid.trans ?_, hhits.trans ?_, hcand.trans ?_⟩
  · interval_cases mode <;> rfl
  · interval_cases mode <;> decide
  · interval_cases mode <;> decide

/-- The reuse distance 3 is filed in bucket 2 of the only target. -/
theorem hitThread_log2Hist (mode : ℕ) (hmode : mode < 3) :
    (hitThread mode).log2Hist = (List.replicate log2Buckets 0).set 2 1 := by
  have hproj : ∀ th : Thread, th.log2Hist = th.meter.log2Hist := fun _ => rfl
  rw [hproj, hitThread_meter]
  interval_cases mode <;> decide

theorem hitThread_cell (mode : ℕ) (hmode : mode < 3) : (hitThread mode).log2Hist[2]? = some 1 := by
  rw [hitThread_log2Hist mode hmode]
  rfl

end RdSpeTool
