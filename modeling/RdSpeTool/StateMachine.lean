import RdSpeTool.CheckedHandlers
import RdSpeTool.Registry
import RdSpeTool.Results

/-!
# The session state machine

The order in which the ioctls let a session be built fixes its parameters before its first thread,
and with them the sizes of the arrays that handlers and queries index.
-/

namespace RdSpeTool

/-! ## Parameters -/

/-- Once targets are loaded an event changes no parameter but the running flag. -/
theorem Session.step_params {s : Session} (hl : s.targetsLoaded = true) (e : SessionEvent) :
    ∃ b, (s.step e).toSessionCtl = s.toSessionCtl.withRunning b := by
  have hsame : ∀ s' : Session, s' = s →
      ∃ b, s'.toSessionCtl = s.toSessionCtl.withRunning b := by
    rintro s' rfl
    exact ⟨s'.running, rfl⟩
  cases e with
  | hit k h => exact ⟨s.running, rfl⟩
  | ioctl cmd =>
      change ∃ b, (rdWpctlIoctl s cmd).2.toSessionCtl = s.toSessionCtl.withRunning b
      cases cmd with
      | configSession cfg =>
          rcases rdSessionConfigLocked_cases s cfg with he | ⟨mode, -, hl', -⟩
          · exact hsame _ he
          · rw [hl] at hl'
            cases hl'
      | loadTargets targets memdupRet allocOk =>
          rcases rdLoadTargetsLocked_cases s targets memdupRet allocOk with he | ⟨-, hl', -⟩
          · exact hsame _ he
          · rw [hl] at hl'
            cases hl'
      | registerThread arg env =>
          rcases rdRegisterThreadLocked_cases s arg env with he | ⟨-, he⟩
          · exact hsame _ he
          · exact ⟨s.running, congrArg (fun r : ℤ × Session => r.2.toSessionCtl) he⟩
      | unregisterThread tid =>
          refine ⟨s.running, ?_⟩
          simp only [rdWpctlIoctl, rdUnregisterThreadLocked]
          cases rdFindActiveThreadByTid s tid <;> rfl
      | startWindow => exact ⟨true, rfl⟩
      | stopWindow => exact ⟨false, rfl⟩
      | resetSession mods =>
          refine ⟨s.running, ?_⟩
          simp only [rdWpctlIoctl, rdResetSessionLocked]
          split_ifs <;> rfl

theorem Session.run_params {s : Session} (hl : s.targetsLoaded = true) (es : List SessionEvent) :
    ∃ b, (s.run es).toSessionCtl = s.toSessionCtl.withRunning b := by
  induction es generalizing s with
  | nil => exact ⟨s.running, rfl⟩
  | cons e es ih =>
      obtain ⟨b, hb⟩ := step_params hl e
      have hl' : (s.step e).targetsLoaded = true :=
        (congrArg SessionCtl.targetsLoaded hb).trans hl
      obtain ⟨b', hb'⟩ := ih hl'
      exact ⟨b', hb'.trans (by rw [hb]; rfl)⟩

/-! ## Threads and windows -/

/-- The events of an active thread follow the window. -/
theorem Shaped.events_enabled {c : SessionCtl} {th : Thread} (h : Shaped c th)
    (ha : th.active = true) :
    th.memEvent = some c.running ∧ (∀ e ∈ th.bpEvents, e.enabled = c.running) ∧
      ∀ s ∈ th.slots, s.wpEvent.enabled = c.running := by
  obtain ⟨arg, hf⟩ := h.of_live ha
  have hmem : th.memEvent = (RdSpeTool.newThread c arg).memEvent := congrArg Frame.memEvent hf
  have hbp : th.bpEvents = (RdSpeTool.newThread c arg).bpEvents := congrArg Frame.bpEvents hf
  rw [hmem, hbp, newThread_eq]
  refine ⟨rfl, ?_, h.enabled⟩
  intro e he
  obtain ⟨e', -, rfl⟩ := List.mem_map.mp he
  rfl

/-- At most one active context has a given tid. -/
theorem Session.Reachable.active_unique {s : Session} (h : s.Reachable) {i j : ℕ} {a b : Thread}
    (hi : s.threads[i]? = some a) (hj : s.threads[j]? = some b) (ha : a.active = true)
    (hb : b.active = true) (he : a.tid = b.tid) : i = j := by
  have hpair : s.threads.Pairwise fun x y => x.active = true → y.active = true → x.tid ≠ y.tid :=
    List.pairwise_filter.mp (List.pairwise_map.mp h.activeTids_nodup)
  obtain ⟨hi', rfl⟩ := List.getElem?_eq_some_iff.mp hi
  obtain ⟨hj', rfl⟩ := List.getElem?_eq_some_iff.mp hj
  rcases lt_trichotomy i j with hlt | heq | hgt
  · exact absurd he (List.pairwise_iff_getElem.mp hpair i j hi' hj' hlt ha hb)
  · exact heq
  · exact absurd he.symm (List.pairwise_iff_getElem.mp hpair j i hj' hi' hgt hb ha)

theorem session_state_machine (s : Session) (h : s.Reachable) :
    (s.threads ≠ [] → 1 ≤ s.wpCapacity ∧ 1 ≤ s.targetCount ∧
      ∀ es, (s.run es).wpCapacity = s.wpCapacity ∧ (s.run es).targets = s.targets ∧
        (s.run es).callchainMode = s.callchainMode ∧
        (s.run es).dwarfStackBytes = s.dwarfStackBytes ∧
        (s.run es).dwarfEventCapacity = s.dwarfEventCapacity) ∧
    (∀ th ∈ s.threads, th.active = true → th.slots.length = s.wpCapacity ∧
      th.bpEvents.length = s.targetCount ∧ th.log2Hist.length = s.targetCount * log2Buckets ∧
      (s.callchainMode = .dwarf →
        ∃ es, th.dwarfEvents = some es ∧ es.length = s.dwarfEventCapacity)) ∧
    (∀ th ∈ s.threads, ∀ ht, Checked.hit s.toSessionCtl th ht = some (th.hit s.toSessionCtl ht)) ∧
    (∀ u allocOk i j,
      Checked.rdGetHistLocked s u i j = some (rdGetHistLocked s u i j) ∧
      Checked.rdGetPairHistLocked s u i j = some (rdGetPairHistLocked s u i j) ∧
      Checked.rdGetContextLocked s u i j = some (rdGetContextLocked s u i j) ∧
      Checked.rdGetDwarfEventLocked s u allocOk i j = some (rdGetDwarfEventLocked s u allocOk i j)) ∧
    (∀ (i j : ℕ) (a b : Thread), s.threads[i]? = some a → s.threads[j]? = some b →
      a.active = true → b.active = true → a.tid = b.tid → i = j) ∧
    ∀ th ∈ s.threads, th.active = true → th.memEvent = some s.running ∧
      (∀ e ∈ th.bpEvents, e.enabled = s.running) ∧
      ∀ slot ∈ th.slots, slot.wpEvent.enabled = s.running := by
  refine ⟨?_, ?_, ?_, ?_, ?_, ?_⟩
  · intro hne
    have hl := h.wellFormed.threads hne
    have hready := h.wellFormed.ready hl
    refine ⟨hready.wpCapacity_pos, List.length_pos_iff.mpr hready.targets_ne, ?_⟩
    intro es
    obtain ⟨b, hb⟩ := Session.run_params hl es
    rw [hb]
    exact ⟨rfl, rfl, rfl, rfl, rfl⟩
  · intro th hth ha
    obtain ⟨hslots, hbp, hhist, -, -, hevents⟩ := (h.shaped hth).arraysFit ha
    refine ⟨hslots, hbp, hhist, ?_⟩
    intro hmode
    rw [if_pos hmode] at hevents
    exact Option.map_eq_some_iff.mp hevents
  · exact fun th hth ht => (h.shaped hth).checkedHit ht
  · intro u allocOk i j
    exact ⟨h.rdGetHistLocked u i j, h.rdGetPairHistLocked u i j, h.rdGetContextLocked u i j,
      h.rdGetDwarfEventLocked u allocOk i j⟩
  · exact fun i j a b hi hj ha hb he => h.active_unique hi hj ha hb he
  · exact fun th hth ha => (h.shaped hth).events_enabled ha

/-- In the run with a hit, its own reuse report and a query for its event pass every check. -/
theorem session_state_machine_small : (hitThread 2).hits = 1 ∧
    (hitThread 2).slots.length = 1 ∧ (hitThread 2).memEvent = some true ∧
    Checked.hit (smallSession 2).toSessionCtl (watchedThread 2)
      (.wp 0 (some smallRegs) (numberedEnv 9)) = some (hitThread 2) ∧
    Checked.rdGetDwarfEventLocked ((rdWpctlOpen 1).run (hitRun 2)) ⟨true, true⟩ true 0 0 =
      some (rdGetDwarfEventLocked ((rdWpctlOpen 1).run (hitRun 2)) ⟨true, true⟩ true 0 0) := by
  have hmem := hitThread_mem 2 (by decide)
  obtain ⟨-, hsizes, -, hqueries, -, henabled⟩ :=
    session_state_machine ((rdWpctlOpen 1).run (hitRun 2)) ⟨1, hitRun 2, rfl⟩
  obtain ⟨-, -, hhits, -⟩ :=
    session_state_machine _ (watchedThread_reachable 2 (by decide))
  have hactive : (hitThread 2).active = true := by
    have hproj : ∀ th : Thread, th.active = th.frame.active := fun _ => rfl
    rw [hproj, hitThread, frame_hits, newThread_eq]
    rfl
  have hslots := (hsizes _ hmem hactive).1
  have hmemEvent := (henabled _ hmem hactive).1
  rw [hitRun_threads 2 (by decide)] at hslots hmemEvent
  refine ⟨(hitThread_spec 2 (by decide)).2.1, hslots, hmemEvent, ?_, (hqueries ⟨true, true⟩ true 0 0).2.2.2⟩
  rw [hitThread_eq]
  exact hhits _ (List.mem_singleton_self _) _

end RdSpeTool
