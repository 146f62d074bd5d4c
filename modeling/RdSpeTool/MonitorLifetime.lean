import RdSpeTool.ThreadAttach

/-!
# Descriptors and buffers of the sampling stage

Threads come and go while a monitor lives, attachments fail, and the destructor closes what is left.
Over a whole run a monitor holds the descriptors and buffers of its active threads and what failed
attachments have lost, and every slot id leads to the open slot that carries it.
-/

namespace RdSpeTool

open ResourceLog

/-! ## Runs with their log -/

structure LoggedMonitor where
  monitor : AttachMonitor
  log : List (Entry PerfResource)

namespace LoggedMonitor

variable (cfg : AttachCfg)

def initial : LoggedMonitor := ⟨.initial, []⟩

def step (s : LoggedMonitor) : AttachStep → LoggedMonitor
  | .register tid env =>
      let r := s.monitor.registerThreadLocked cfg env tid
      ⟨r.2.1, s.log ++ r.2.2⟩
  | .unregister tid readsOk =>
      let closed := (s.monitor.threads tid).active = true ∧ readsOk = true
      ⟨s.monitor.unregisterThreadLocked readsOk tid,
        s.log ++ if closed then (s.monitor.threads tid).resources.map .release else []⟩

def after (steps : List AttachStep) : LoggedMonitor := steps.foldl (step cfg) initial

def closeThread (s : LoggedMonitor) (tid : ℤ) : LoggedMonitor :=
  ⟨s.monitor.after tid (s.monitor.attempt tid).closeThreadLocked,
    s.log ++ (s.monitor.threads tid).resources.map .release⟩

def destroy (s : LoggedMonitor) (order : List ℤ) : LoggedMonitor := order.foldl closeThread s

def owned (s : LoggedMonitor) : List PerfResource :=
  s.monitor.tids.flatMap fun tid => (s.monitor.threads tid).resources

end LoggedMonitor

structure AttachSlot.Mapped (cfg : AttachCfg) (tid : ℤ) (sampler : ℕ) (slot : AttachSlot) : Prop where
  tid : slot.tid = tid
  samplerIndex : slot.samplerIndex = sampler
  fd : slot.fd.isSome = true
  ring : slot.ringbuf.isSome = true ∧ slot.ringbufBytes = cfg.ringBytes
  aux : slot.auxbuf.isSome = cfg.isSpe sampler
  auxBytes : slot.auxbufBytes = if cfg.isSpe sampler then cfg.auxBytes else 0

/-- All counters are open, and there is an open slot for each sampler. -/
structure AttachThread.Attached (cfg : AttachCfg) (tid : ℤ) (t : AttachThread) : Prop where
  counters : ∃ fds : List ℕ, t.counterFds = fds.map some ∧ fds.length = cfg.numCounters
  samplers : t.samplers.length = cfg.numSamplers
  slots : ∀ (j : ℕ) (slot : AttachSlot), t.samplers[j]? = some slot → slot.Mapped cfg tid j

/-- A slot id leads to the place of the slot that carries it, and nowhere if there is none. -/
def AttachMonitor.Routed (m : AttachMonitor) : Prop :=
  ∀ id tid j, m.samplerSlots id = some (tid, j) ↔
    (m.threads tid).samplers[j]?.map AttachSlot.slotId = some id

/-- Slot ids only grow, and an id that was given out and leads nowhere is not given out again. -/
structure AttachMonitor.Retires (m m' : AttachMonitor) : Prop where
  le : m.nextSlotId ≤ m'.nextSlotId
  stale : ∀ id < m.nextSlotId, m.samplerSlots id = none → m'.samplerSlots id = none

structure LoggedMonitor.Sound (cfg : AttachCfg) (s : LoggedMonitor) (lost : List PerfResource) :
    Prop where
  held : Holds s.log (lost ++ s.owned)
  wellFormed : s.monitor.WellFormed cfg
  nodup : s.monitor.tids.Nodup
  listed : ∀ tid, (s.monitor.threads tid).active = true → tid ∈ s.monitor.tids
  attached : ∀ tid, (s.monitor.threads tid).active = true →
    (s.monitor.threads tid).Attached cfg tid
  routed : s.monitor.Routed

/-- Every registration that fails fails where nothing gets lost. -/
def CleanRun (cfg : AttachCfg) (steps : List AttachStep) : Prop :=
  ∀ before tid env rest, steps = before ++ .register tid env :: rest →
    ((LoggedMonitor.after cfg before).monitor.registerThreadLocked cfg env tid).1 ≠ none →
      CleanFailure cfg env

/-! ## Slots under construction -/

namespace Attempt

variable {cfg : AttachCfg} {env : AttachEnv} {tid : ℤ} {base : ℕ → Option (ℤ × ℕ)} {n : ℕ}

/-- An attempt that began at slot id `n` with the slots `base`: its own slots are the new ones. -/
structure Placed (cfg : AttachCfg) (tid : ℤ) (base : ℕ → Option (ℤ × ℕ)) (n : ℕ) (a : Attempt) :
    Prop where
  le : n ≤ a.nextSlotId
  old : ∀ id < n, a.slots id = base id
  fresh : ∀ id, a.nextSlotId ≤ id → a.slots id = none
  routed : ∀ id, n ≤ id → ∀ t j, a.slots id = some (t, j) ↔
    t = tid ∧ a.thread.samplers[j]?.map AttachSlot.slotId = some id
  ids : ∀ slot ∈ a.thread.samplers, n ≤ slot.slotId ∧ slot.slotId < a.nextSlotId
  slots : ∀ (j : ℕ) (slot : AttachSlot), a.thread.samplers[j]? = some slot →
    slot.Mapped cfg tid j

theorem mapBuffers_mapped {k fd id : ℕ} {maps : List (Entry PerfResource)} {slot : AttachSlot}
    (h : mapBuffers cfg env tid k fd id = (maps, .ok slot)) :
    slot.slotId = id ∧ slot.Mapped cfg tid k := by
  unfold mapBuffers at h
  cases hring : mmap cfg.ringBytes (env.mapRing k) with
  | none =>
      rw [hring] at h
      cases h
  | some ring =>
      rw [hring] at h
      dsimp only at h
      by_cases hspe : cfg.isSpe k = false
      · rw [if_pos hspe] at h
        cases h
        exact ⟨rfl, rfl, rfl, rfl, ⟨rfl, rfl⟩, hspe.symm, by simp [hspe]⟩
      · rw [if_neg hspe] at h
        have hspe' : cfg.isSpe k = true := by simpa using hspe
        cases haux : mmap cfg.auxBytes (env.mapAux k) with
        | none =>
            rw [haux] at h
            cases h
        | some aux =>
            rw [haux] at h
            cases h
            exact ⟨rfl, rfl, rfl, rfl, ⟨rfl, rfl⟩, hspe'.symm, by simp [hspe']⟩

/-- A slot id without a slot. -/
theorem Placed.skip {a : Attempt} (h : Placed cfg tid base n a) (log : List (Entry PerfResource)) :
    Placed cfg tid base n { a with nextSlotId := a.nextSlotId + 1, log := log } where
  le := h.le.trans (Nat.le_succ _)
  old := h.old
  fresh id hid := h.fresh id (Nat.le_of_succ_le hid)
  routed := h.routed
  ids slot hslot := ⟨(h.ids slot hslot).1, (h.ids slot hslot).2.trans (Nat.lt_succ_self _)⟩
  slots := h.slots

theorem Placed.push {a : Attempt} (h : Placed cfg tid base n a) {slot : AttachSlot}
    (hid : slot.slotId = a.nextSlotId) (hmapped : slot.Mapped cfg tid a.thread.samplers.length)
    (log : List (Entry PerfResource)) :
    Placed cfg tid base n
      { thread := { a.thread with samplers := a.thread.samplers ++ [slot] }
        slots := Function.update a.slots a.nextSlotId (some (tid, a.thread.samplers.length))
        nextSlotId := a.nextSlotId + 1
        log := log } where
  le := h.le.trans (Nat.le_succ _)
  old id hlt := by
    have hne : id ≠ a.nextSlotId := (hlt.trans_le h.le).ne
    dsimp only
    rw [Function.update_of_ne hne]
    exact h.old id hlt
  fresh id hle := by
    have hne : id ≠ a.nextSlotId := (Nat.lt_of_succ_le hle).ne'
    dsimp only
    rw [Function.update_of_ne hne]
    exact h.fresh id (Nat.le_of_succ_le hle)
  routed id hle t j := by
    dsimp only
    by_cases hnew : id = a.nextSlotId
    · rw [hnew, Function.update_self, Option.some.injEq, Prod.mk.injEq]
      constructor
      · rintro ⟨rfl, rfl⟩
        refine ⟨rfl, ?_⟩
        rw [List.getElem?_concat_length, Option.map_some, hid]
      · rintro ⟨rfl, hj⟩
        obtain ⟨slot', hslot', he⟩ := Option.map_eq_some_iff.mp hj
        rw [List.getElem?_append] at hslot'
        split_ifs at hslot' with hlt
        · have := (h.ids slot' (List.mem_of_getElem? hslot')).2
          omega
        · have hlast := (List.getElem?_eq_some_iff.mp hslot').1
          rw [List.length_singleton] at hlast
          exact ⟨rfl, by omega⟩
    · rw [Function.update_of_ne hnew, h.routed id hle]
      refine and_congr_right fun _ => ?_
      rw [List.getElem?_append]
      split_ifs with hlt
      · exact Iff.rfl
      · rw [List.getElem?_eq_none (not_lt.mp hlt)]
        refine iff_of_false (by simp) fun hj => ?_
        obtain ⟨slot', hslot', he⟩ := Option.map_eq_some_iff.mp hj
        have hmem := List.mem_of_getElem? hslot'
        rw [List.mem_singleton.mp hmem, hid] at he
        exact hnew he.symm
  ids slot' hslot' := by
    rcases List.mem_append.mp hslot' with hold | hnew
    · exact ⟨(h.ids slot' hold).1, (h.ids slot' hold).2.trans (Nat.lt_succ_self _)⟩
    · rw [List.mem_singleton.mp hnew, hid]
      exact ⟨h.le, Nat.lt_succ_self _⟩
  slots j slot' hslot' := by
    dsimp only at hslot'
    rw [List.getElem?_append] at hslot'
    split_ifs at hslot' with hlt
    · exact h.slots j slot' hslot'
    · have hlast := (List.getElem?_eq_some_iff.mp hslot').1
      rw [List.length_singleton] at hlast
      obtain rfl : j = a.thread.samplers.length := by omega
      rw [Nat.sub_self] at hslot'
      rw [← Option.some.inj hslot']
      exact hmapped

/-- The loop keeps the slots in place, and fills them all if it ends without an error. -/
theorem openSlots_placed {k : ℕ} {fds : List ℕ} {a : Attempt} (h : Placed cfg tid base n a)
    (hk : a.thread.samplers.length = k) :
    Placed cfg tid base n (openSlots cfg env tid k fds a).2 ∧
      (openSlots cfg env tid k fds a).2.thread.counterFds = a.thread.counterFds ∧
      ((openSlots cfg env tid k fds a).1 = none →
        (openSlots cfg env tid k fds a).2.thread.samplers.length = k + fds.length) := by
  induction fds generalizing k a with
  | nil => exact ⟨h, rfl, fun _ => hk⟩
  | cons fd left ih =>
      rw [openSlots]
      rcases hmap : mapBuffers cfg env tid k fd a.nextSlotId with ⟨maps, e | slot⟩
      · exact ⟨h.skip _, rfl, fun hnone => by cases hnone⟩
      · dsimp only
        obtain ⟨hid, hmapped⟩ := mapBuffers_mapped hmap
        rw [← hk] at hmapped
        have hpush := h.push hid hmapped (a.log ++ maps)
        split_ifs with hrefuse
        · exact ⟨hpush, rfl, fun hnone => by cases hnone⟩
        · have hlen : (a.thread.samplers ++ [slot]).length = k + 1 := by
            rw [List.length_append, hk]
            rfl
          obtain ⟨hplaced, hcounters, hfull⟩ := ih hpush hlen
          refine ⟨hplaced, hcounters, fun hnone => ?_⟩
          rw [hfull hnone, List.length_cons]
          omega

theorem Placed.of_thread {a a' : Attempt} (h : Placed cfg tid base n a)
    (hsamplers : a'.thread.samplers = a.thread.samplers) (hslots : a'.slots = a.slots)
    (hnext : a'.nextSlotId = a.nextSlotId) : Placed cfg tid base n a' := by
  refine ⟨?_, ?_, ?_, ?_, ?_, ?_⟩
  · exact hnext ▸ h.le
  · exact hslots ▸ h.old
  · exact hslots ▸ hnext ▸ h.fresh
  · rw [hslots, hsamplers]
    exact h.routed
  · rw [hsamplers, hnext]
    exact h.ids
  · rw [hsamplers]
    exact h.slots

theorem openSamplers_placed {a : Attempt} (h : Placed cfg tid base n a)
    (hempty : a.thread.samplers = []) :
    Placed cfg tid base n (openSamplers cfg env tid a).2 ∧
      (openSamplers cfg env tid a).2.thread.counterFds = a.thread.counterFds ∧
      ((openSamplers cfg env tid a).1 = none →
        (openSamplers cfg env tid a).2.thread.samplers.length = cfg.numSamplers) := by
  unfold openSamplers
  by_cases hwriters : a.thread.writers ≠ [] ∧ a.thread.writers.length ≠ cfg.numSamplers
  · rw [if_pos hwriters]
    exact ⟨h, rfl, fun hnone => by cases hnone⟩
  rw [if_neg hwriters]
  dsimp only
  obtain ⟨hnone, hlen, -⟩ | ⟨i, -, e, hsome, -⟩ :=
    openFds_cases (env.openEvent .sampler) cfg.numSamplers
  · rw [hnone]
    dsimp only
    generalize hb : Attempt.mk _ a.slots a.nextSlotId _ = b
    have hplaced : Placed cfg tid base n b := by
      rw [← hb]
      exact h.of_thread hempty.symm rfl rfl
    have hlength : b.thread.samplers.length = 0 := by
      rw [← hb]
      rfl
    obtain ⟨hdone, hcounters, hfull⟩ := @openSlots_placed cfg env tid base n 0
      (openFds (env.openEvent .sampler) cfg.numSamplers).1 b hplaced hlength
    have hsame : b.thread.counterFds = a.thread.counterFds := by
      rw [← hb]
    rcases hslots : openSlots cfg env tid 0
      (openFds (env.openEvent .sampler) cfg.numSamplers).1 b with ⟨_ | ⟨e, left⟩, b'⟩
    · rw [hslots] at hdone hcounters hfull
      refine ⟨hdone, hcounters.trans hsame, fun _ => ?_⟩
      rw [hfull rfl, hlen, Nat.zero_add]
    · rw [hslots] at hdone hcounters
      exact ⟨hdone.of_thread rfl rfl rfl, hcounters.trans hsame, fun hnone => by cases hnone⟩
  · rw [hsome]
    exact ⟨h.of_thread rfl rfl rfl, rfl, fun hnone => by cases hnone⟩

/-- An attempt that does not fail leaves a thread completely attached. -/
theorem openThreadLocked_placed {a : Attempt} (h : Placed cfg tid base n a)
    (hempty : a.thread.samplers = []) :
    Placed cfg tid base n (openThreadLocked cfg env tid a).2 ∧
      ((openThreadLocked cfg env tid a).1 = none →
        (openThreadLocked cfg env tid a).2.thread.Attached cfg tid) := by
  unfold openThreadLocked
  dsimp only
  generalize hb : Attempt.mk _ a.slots a.nextSlotId _ = b
  have hplaced : Placed cfg tid base n b := by
    rw [← hb]
    exact h.of_thread rfl rfl rfl
  have hnothing : b.thread.samplers = [] := by
    rw [← hb]
    exact hempty
  have hfilled : b.thread.counterFds =
      filled cfg.numCounters (openFds (env.openEvent .counter) cfg.numCounters).1 := by
    rw [← hb]
  obtain ⟨hnone, hlen, -⟩ | ⟨i, -, e, hsome, -⟩ :=
    openFds_cases (env.openEvent .counter) cfg.numCounters
  · have hcounters : ∃ fds : List ℕ, b.thread.counterFds = fds.map some ∧
        fds.length = cfg.numCounters := by
      refine ⟨_, ?_, hlen⟩
      rw [hfilled, filled, hlen, Nat.sub_self, List.replicate_zero, List.append_nil]
    rw [hnone]
    dsimp only
    by_cases hzero : cfg.numSamplers = 0
    · rw [if_pos hzero]
      refine ⟨hplaced, fun _ => ⟨hcounters, ?_, hplaced.slots⟩⟩
      rw [hnothing, hzero]
      rfl
    · rw [if_neg hzero]
      obtain ⟨hdone, hsame, hfull⟩ := @openSamplers_placed cfg env tid base n b hplaced hnothing
      refine ⟨hdone, fun hok => ⟨?_, hfull hok, hdone.slots⟩⟩
      rw [hsame]
      exact hcounters
  · rw [hsome]
    exact ⟨hplaced, fun hnone => by cases hnone⟩

theorem Placed.close {a : Attempt} (h : Placed cfg tid base n a) :
    Placed cfg tid base n a.closeThreadLocked where
  le := h.le
  old id hlt := by
    have hout : id ∉ a.thread.samplers.map AttachSlot.slotId := by
      intro hmem
      obtain ⟨slot, hslot, rfl⟩ := List.mem_map.mp hmem
      exact absurd (h.ids slot hslot).1 (not_le.mpr hlt)
    unfold closeThreadLocked
    dsimp only
    rw [if_neg hout]
    exact h.old id hlt
  fresh id hle := by
    unfold closeThreadLocked
    dsimp only
    split_ifs
    · rfl
    · exact h.fresh id hle
  routed id hle t j := by
    refine iff_of_false (fun hsome => ?_) (fun hsome => by cases hsome.2)
    unfold closeThreadLocked at hsome
    dsimp only at hsome
    split_ifs at hsome with hmem
    obtain ⟨-, hj⟩ := (h.routed id hle t j).mp hsome
    obtain ⟨slot, hslot, hid⟩ := Option.map_eq_some_iff.mp hj
    exact hmem (List.mem_map.mpr ⟨slot, List.mem_of_getElem? hslot, hid⟩)
  ids slot hslot := by cases hslot
  slots j slot hslot := by cases hslot

end Attempt

/-! ## One call -/

namespace AttachMonitor

variable {cfg : AttachCfg} {m : AttachMonitor} {tid : ℤ}

theorem WellFormed.placed (h : m.WellFormed cfg) (hidle : (m.threads tid).active = false) :
    (m.attempt tid).Placed cfg tid m.samplerSlots m.nextSlotId where
  le := le_rfl
  old _ _ := rfl
  fresh := h.fresh
  routed id hle t j := by
    change m.samplerSlots id = _ ↔ t = tid ∧ (m.threads tid).samplers[j]?.map _ = _
    rw [h.fresh id hle, (h.idle tid hidle).2]
    exact iff_of_false (fun hsome => by cases hsome) fun hsome => by cases hsome.2
  ids slot hslot := by
    change slot ∈ (m.threads tid).samplers at hslot
    rw [(h.idle tid hidle).2] at hslot
    cases hslot
  slots j slot hslot := by
    change (m.threads tid).samplers[j]? = some slot at hslot
    rw [(h.idle tid hidle).2] at hslot
    cases hslot

/-- The new slots of one thread stand beside the old slots of the others. -/
theorem Routed.after (h : m.Routed) (hwell : m.WellFormed cfg)
    (hidle : (m.threads tid).active = false) {a : Attempt}
    (ha : a.Placed cfg tid m.samplerSlots m.nextSlotId) : (m.after tid a).Routed := by
  intro id t j
  have hnone := (hwell.idle tid hidle).2
  change a.slots id = some (t, j) ↔
    (Function.update m.threads tid a.thread t).samplers[j]?.map _ = some id
  by_cases hid : id < m.nextSlotId
  · rw [ha.old id hid, h id t j]
    by_cases ht : t = tid
    · rw [ht, Function.update_self, hnone]
      refine iff_of_false (fun hsome => by cases hsome) fun hsome => ?_
      obtain ⟨slot, hslot, he⟩ := Option.map_eq_some_iff.mp hsome
      have := (ha.ids slot (List.mem_of_getElem? hslot)).1
      omega
    · rw [Function.update_of_ne ht]
  · rw [ha.routed id (not_lt.mp hid)]
    by_cases ht : t = tid
    · rw [ht, Function.update_self]
      exact and_iff_right rfl
    · rw [Function.update_of_ne ht, ← h id t j, hwell.fresh id (not_lt.mp hid)]
      exact iff_of_false (fun hand => ht hand.1) fun hsome => by cases hsome

theorem Routed.close (h : m.Routed) (tid : ℤ) :
    (m.after tid (m.attempt tid).closeThreadLocked).Routed := by
  intro id t j
  have hmine : id ∈ (m.threads tid).samplers.map AttachSlot.slotId →
      ∃ j', m.samplerSlots id = some (tid, j') := by
    intro hmem
    obtain ⟨slot, hslot, hid⟩ := List.mem_map.mp hmem
    obtain ⟨j', hj'⟩ := List.mem_iff_getElem?.mp hslot
    refine ⟨j', (h id tid j').mpr ?_⟩
    rw [hj', Option.map_some, hid]
  change (if id ∈ (m.threads tid).samplers.map AttachSlot.slotId then none else
    m.samplerSlots id) = some (t, j) ↔
      (Function.update m.threads tid _ t).samplers[j]?.map _ = some id
  by_cases ht : t = tid
  · rw [ht, Function.update_self]
    refine iff_of_false (fun hsome => ?_) fun hsome => by cases hsome
    split_ifs at hsome with hmem
    obtain ⟨slot, hslot, hid⟩ := Option.map_eq_some_iff.mp ((h id tid j).mp hsome)
    exact hmem (List.mem_map.mpr ⟨slot, List.mem_of_getElem? hslot, hid⟩)
  · rw [Function.update_of_ne ht, ← h id t j]
    split_ifs with hmem
    · obtain ⟨j', hj'⟩ := hmine hmem
      rw [hj', Option.some.injEq, Prod.mk.injEq]
      exact iff_of_false (fun hsome => by cases hsome) fun hsome => ht hsome.1.symm
    · exact Iff.rfl

theorem Retires.refl (m : AttachMonitor) : m.Retires m := ⟨le_rfl, fun _ _ hnone => hnone⟩

theorem Retires.trans {m' m'' : AttachMonitor} (h : m.Retires m') (h' : m'.Retires m'') :
    m.Retires m'' :=
  ⟨h.le.trans h'.le, fun id hid hnone => h'.stale id (hid.trans_le h.le) (h.stale id hid hnone)⟩

theorem retires_close (m : AttachMonitor) (tid : ℤ) :
    m.Retires (m.after tid (m.attempt tid).closeThreadLocked) where
  le := le_rfl
  stale id _ hnone := by
    change (if id ∈ (m.threads tid).samplers.map AttachSlot.slotId then none else
      m.samplerSlots id) = none
    split_ifs
    · rfl
    · exact hnone

end AttachMonitor

namespace LoggedMonitor

variable {cfg : AttachCfg} {s : LoggedMonitor} {lost : List PerfResource} {tid : ℤ}

def ownedByOthers (s : LoggedMonitor) (tid : ℤ) : List PerfResource :=
  (s.monitor.tids.erase tid).flatMap fun t => (s.monitor.threads t).resources

/-- One thread of the map is replaced. -/
theorem owned_update (hnodup : s.monitor.tids.Nodup) (hmem : tid ∈ s.monitor.tids)
    (f : ℤ → AttachThread) (hf : ∀ t ≠ tid, f t = s.monitor.threads t) :
    (s.monitor.tids.flatMap fun t => (f t).resources).Perm
      ((f tid).resources ++ s.ownedByOthers tid) := by
  have hothers : (s.monitor.tids.erase tid).flatMap (fun t => (f t).resources) =
      s.ownedByOthers tid := by
    refine List.flatMap_congr fun t ht => ?_
    rw [hf t (hnodup.mem_erase_iff.mp ht).1]
  refine ((List.perm_cons_erase hmem).flatMap_right _).trans ?_
  rw [List.flatMap_cons, hothers]

theorem Sound.owned_perm (h : s.Sound cfg lost) (hmem : tid ∈ s.monitor.tids) :
    s.owned.Perm ((s.monitor.threads tid).resources ++ s.ownedByOthers tid) :=
  owned_update h.nodup hmem s.monitor.threads fun _ _ => rfl

theorem resources_of_idle (hwell : s.monitor.WellFormed cfg)
    (hidle : (s.monitor.threads tid).active = false) :
    (s.monitor.threads tid).resources = [] := by
  obtain ⟨hcounters, hsamplers⟩ := hwell.idle tid hidle
  simp [AttachThread.resources, hcounters, hsamplers]

theorem Sound.closeThread (h : s.Sound cfg lost) (hmem : tid ∈ s.monitor.tids) :
    (s.closeThread tid).Sound cfg lost := by
  have hclosed : ∀ t, ((s.closeThread tid).monitor.threads t).active = true →
      t ≠ tid ∧ (s.closeThread tid).monitor.threads t = s.monitor.threads t := by
    intro t hactive
    have hne : t ≠ tid := by
      rintro rfl
      simp [LoggedMonitor.closeThread, AttachMonitor.after, Attempt.closeThreadLocked] at hactive
    exact ⟨hne, Function.update_of_ne hne _ _⟩
  refine ⟨?_, ?_, h.nodup, fun t hactive => ?_, fun t hactive => ?_, h.routed.close tid⟩
  · have hnew := owned_update h.nodup hmem (s.closeThread tid).monitor.threads
      fun t ht => Function.update_of_ne ht _ _
    have hnothing : ((s.closeThread tid).monitor.threads tid).resources = [] := by
      simp [LoggedMonitor.closeThread, AttachMonitor.after, Attempt.closeThreadLocked,
        AttachThread.resources]
    rw [hnothing, List.nil_append] at hnew
    have hfront : (lost ++ s.owned).Perm
        ((s.monitor.threads tid).resources ++ (lost ++ s.ownedByOthers tid)) := by
      have hold := Multiset.coe_eq_coe.mpr (h.owned_perm hmem)
      rw [← Multiset.coe_eq_coe]
      simp only [← Multiset.coe_add, hold]
      abel
    exact ((h.held.perm hfront).release).perm (hnew.symm.append_left lost)
  · refine h.wellFormed.after (fun _ => ⟨rfl, rfl⟩) (h.wellFormed.writers tid) fun id hle => ?_
    unfold Attempt.closeThreadLocked
    dsimp only
    split_ifs
    · rfl
    · exact h.wellFormed.fresh id hle
  · obtain ⟨-, hsame⟩ := hclosed t hactive
    rw [hsame] at hactive
    exact h.listed t hactive
  · obtain ⟨-, hsame⟩ := hclosed t hactive
    rw [hsame] at hactive ⊢
    exact h.attached t hactive

/-- The entry that the map makes for a tid before anything can fail. -/
def enter (s : LoggedMonitor) (tid : ℤ) : LoggedMonitor :=
  ⟨{ s.monitor with
      tids := if tid ∈ s.monitor.tids then s.monitor.tids else s.monitor.tids ++ [tid] }, s.log⟩

theorem Sound.enter (h : s.Sound cfg lost) (hidle : (s.monitor.threads tid).active = false) :
    (s.enter tid).Sound cfg lost ∧ tid ∈ (s.enter tid).monitor.tids := by
  have howned : (s.enter tid).owned = s.owned := by
    unfold owned LoggedMonitor.enter
    dsimp only
    split_ifs
    · rfl
    · rw [List.flatMap_append, List.flatMap_singleton, resources_of_idle h.wellFormed hidle,
        List.append_nil]
  have htids : (s.enter tid).monitor.tids.Nodup ∧ tid ∈ (s.enter tid).monitor.tids ∧
      ∀ t ∈ s.monitor.tids, t ∈ (s.enter tid).monitor.tids := by
    unfold LoggedMonitor.enter
    dsimp only
    split_ifs with hmem
    · exact ⟨h.nodup, hmem, fun t ht => ht⟩
    · refine ⟨?_, by simp, fun t ht => List.mem_append_left _ ht⟩
      rw [List.nodup_append]
      refine ⟨h.nodup, List.nodup_singleton tid, fun t ht t' ht' => ?_⟩
      rw [List.mem_singleton.mp ht']
      exact fun he => hmem (he ▸ ht)
  refine ⟨⟨?_, ⟨h.wellFormed.idle, h.wellFormed.writers, h.wellFormed.fresh⟩, htids.1,
    fun t ht => htids.2.2 t (h.listed t ht), h.attached, h.routed⟩, htids.2.1⟩
  rw [howned]
  exact h.held

/-- A thread that owned nothing is replaced by what an attempt made of it. -/
theorem Sound.attempted (h : s.Sound cfg lost) (hidle : (s.monitor.threads tid).active = false)
    (hmem : tid ∈ s.monitor.tids) {a : Attempt} {more : List PerfResource}
    (hheld : Holds a.log (more ++ a.thread.resources))
    (hplaced : a.Placed cfg tid s.monitor.samplerSlots s.monitor.nextSlotId)
    (hwell : (s.monitor.after tid a).WellFormed cfg)
    (hattached : a.thread.active = true → a.thread.Attached cfg tid) :
    (⟨s.monitor.after tid a, s.log ++ a.log⟩ : LoggedMonitor).Sound cfg (lost ++ more) := by
  have hothers : ∀ t ≠ tid, (s.monitor.after tid a).threads t = s.monitor.threads t :=
    fun t ht => Function.update_of_ne ht _ _
  have hmine : (s.monitor.after tid a).threads tid = a.thread := Function.update_self _ _ _
  refine ⟨?_, hwell, h.nodup, fun t ht => ?_, fun t ht => ?_,
    h.routed.after h.wellFormed hidle hplaced⟩
  · have hold := Multiset.coe_eq_coe.mpr (h.owned_perm hmem)
    have hnew := Multiset.coe_eq_coe.mpr
      (owned_update h.nodup hmem (s.monitor.after tid a).threads hothers)
    rw [resources_of_idle h.wellFormed hidle, List.nil_append] at hold
    rw [hmine] at hnew
    refine (h.held.append hheld).perm ?_
    rw [← Multiset.coe_eq_coe]
    change _ = (↑(lost ++ more ++ (s.monitor.tids.flatMap fun t =>
      ((s.monitor.after tid a).threads t).resources)) : Multiset PerfResource)
    simp only [← Multiset.coe_add] at hnew ⊢
    rw [hold, hnew]
    abel
  · by_cases hne : t = tid
    · rw [hne]
      exact hmem
    · dsimp only at ht
      rw [hothers t hne] at ht
      exact h.listed t ht
  · dsimp only at ht ⊢
    by_cases hne : t = tid
    · rw [hne, hmine] at ht ⊢
      exact hattached ht
    · rw [hothers t hne] at ht ⊢
      exact h.attached t ht

section Registration

variable {env : AttachEnv} {tid : ℤ} {a : Attempt}

theorem registerThreadLocked_of_idle (hidle : (s.monitor.threads tid).active = false) :
    s.monitor.registerThreadLocked cfg env tid =
      match ((s.enter tid).monitor.attempt tid).openThreadLocked cfg env tid with
      | (none, a) => (none, (s.enter tid).monitor.after tid
          { a with thread := { a.thread with active := true } }, a.log)
      | (some e, a) => (some e, (s.enter tid).monitor.after tid a.closeThreadLocked,
          a.closeThreadLocked.log) := by
  unfold AttachMonitor.registerThreadLocked
  dsimp only
  rw [if_neg (by simp [hidle])]
  rfl

end Registration

/-- A registration that fails clean loses nothing, and only such a one. -/
theorem Sound.register (h : s.Sound cfg lost) (env : AttachEnv) (tid : ℤ) :
    ∃ more, (s.step cfg (.register tid env)).Sound cfg (lost ++ more) ∧
      s.monitor.Retires (s.step cfg (.register tid env)).monitor ∧
      (more = [] ↔ ((s.monitor.registerThreadLocked cfg env tid).1 ≠ none →
        CleanFailure cfg env)) := by
  by_cases hactive : (s.monitor.threads tid).active = true
  · have htids : (if tid ∈ s.monitor.tids then s.monitor.tids else s.monitor.tids ++ [tid]) =
        s.monitor.tids := if_pos (h.listed tid hactive)
    have hsame : s.monitor.registerThreadLocked cfg env tid = (none, s.monitor, []) := by
      unfold AttachMonitor.registerThreadLocked
      rw [htids, if_pos hactive]
    have hstep : s.step cfg (.register tid env) = s := by
      unfold step
      dsimp only
      rw [hsame, List.append_nil]
    rw [hstep, hsame]
    refine ⟨[], ?_, .refl _, iff_of_true rfl fun hne => absurd rfl hne⟩
    rw [List.append_nil]
    exact h
  have hidle : (s.monitor.threads tid).active = false := by simpa using hactive
  obtain ⟨hentered, hmem⟩ := h.enter hidle
  obtain ⟨hcounters, hsamplers⟩ := h.wellFormed.idle tid hidle
  obtain ⟨hplaced, hattached⟩ := @Attempt.openThreadLocked_placed cfg env tid _ _
    ((s.enter tid).monitor.attempt tid) (hentered.wellFormed.placed hidle) hsamplers
  unfold step
  dsimp only
  obtain ⟨a, heq, htracks⟩ | ⟨e, a, lostHere, heq, htracks, hiff⟩ :=
    Attempt.openThreadLocked_cases env tid (hentered.wellFormed.tracks hidle) hcounters hsamplers
  · rw [registerThreadLocked_of_idle hidle, heq]
    rw [heq] at hplaced hattached
    refine ⟨[], ?_, ⟨hplaced.le, fun id hid hnone => (hplaced.old id hid).trans hnone⟩,
      iff_of_true rfl fun hne => absurd rfl hne⟩
    refine hentered.attempted hidle hmem (a := { a with thread := { a.thread with active := true } })
      htracks.owned (hplaced.of_thread rfl rfl rfl) ?_ fun _ => ?_
    · exact hentered.wellFormed.after (fun hfalse => by cases hfalse) htracks.writers htracks.fresh
    · obtain ⟨hcounters, hlength, hslots⟩ := hattached rfl
      exact ⟨hcounters, hlength, hslots⟩
  · rw [registerThreadLocked_of_idle hidle, heq]
    rw [heq] at hplaced
    obtain ⟨hclosed, -⟩ := htracks.close
    refine ⟨lostHere, ?_,
      ⟨hplaced.close.le, fun id hid hnone => (hplaced.close.old id hid).trans hnone⟩,
      hiff.trans ⟨fun hclean _ => hclean, fun hclean => hclean (by simp)⟩⟩
    refine hentered.attempted hidle hmem hclosed.owned hplaced.close ?_ fun hfalse => by cases hfalse
    exact hentered.wellFormed.after (fun _ => ⟨rfl, rfl⟩) hclosed.writers hclosed.fresh

theorem Sound.unregister (h : s.Sound cfg lost) (tid : ℤ) (readsOk : Bool) :
    (s.step cfg (.unregister tid readsOk)).Sound cfg lost ∧
      s.monitor.Retires (s.step cfg (.unregister tid readsOk)).monitor := by
  unfold step AttachMonitor.unregisterThreadLocked
  dsimp only
  by_cases hclosed : (s.monitor.threads tid).active = true ∧ readsOk = true
  · have hopen : ¬ ((s.monitor.threads tid).active = false ∨ readsOk = false) := by
      simp [hclosed.1, hclosed.2]
    rw [if_pos hclosed, if_neg hopen]
    exact ⟨h.closeThread (h.listed tid hclosed.1), s.monitor.retires_close tid⟩
  · have hkept : (s.monitor.threads tid).active = false ∨ readsOk = false := by
      rw [not_and_or, Bool.not_eq_true, Bool.not_eq_true] at hclosed
      exact hclosed
    rw [if_neg hclosed, if_pos hkept, List.append_nil]
    exact ⟨h, .refl _⟩

theorem Sound.retires (h : s.Sound cfg lost) (st : AttachStep) :
    s.monitor.Retires (s.step cfg st).monitor := by
  cases st with
  | register tid env =>
      obtain ⟨-, -, hretires, -⟩ := h.register env tid
      exact hretires
  | unregister tid readsOk => exact (h.unregister tid readsOk).2

/-! ## Whole runs -/

theorem sound_initial : initial.Sound cfg [] where
  held := Holds.nil
  wellFormed := AttachMonitor.wellFormed_initial
  nodup := List.nodup_nil
  listed _ hactive := by cases hactive
  attached _ hactive := by cases hactive
  routed id tid j := by
    refine iff_of_false (fun hsome => ?_) fun hsome => ?_
    · cases hsome
    · cases hsome

theorem after_concat (steps : List AttachStep) (st : AttachStep) :
    after cfg (steps ++ [st]) = (after cfg steps).step cfg st := by
  unfold after
  rw [List.foldl_append]
  rfl

theorem cleanRun_concat (steps : List AttachStep) (st : AttachStep) :
    CleanRun cfg (steps ++ [st]) ↔ CleanRun cfg steps ∧ ∀ tid env, st = .register tid env →
      ((after cfg steps).monitor.registerThreadLocked cfg env tid).1 ≠ none →
        CleanFailure cfg env := by
  constructor
  · intro h
    constructor
    · rintro before tid env rest rfl
      exact h before tid env (rest ++ [st]) (by simp)
    · rintro tid env rfl
      exact h steps tid env [] rfl
  · rintro ⟨hsteps, hlast⟩ before tid env rest heq
    rcases List.eq_nil_or_concat rest with rfl | ⟨rest, st', rfl⟩
    · obtain ⟨rfl, hst⟩ := List.append_inj' heq rfl
      exact hlast tid env (List.cons.inj hst).1
    · have hsplit : steps ++ [st] = (before ++ .register tid env :: rest) ++ [st'] := by
        rw [heq, List.concat_eq_append]
        simp
      obtain ⟨rfl, -⟩ := List.append_inj' hsplit rfl
      exact hsteps before tid env rest rfl

/-- In every state the losses are those of the registrations that failed. -/
theorem exists_sound (cfg : AttachCfg) (steps : List AttachStep) :
    ∃ lost, (after cfg steps).Sound cfg lost ∧ (lost = [] ↔ CleanRun cfg steps) := by
  induction steps using List.reverseRecOn with
  | nil =>
      refine ⟨[], sound_initial, iff_of_true rfl ?_⟩
      intro before tid env rest heq
      exact absurd heq.symm (by simp)
  | append_singleton steps st ih =>
      obtain ⟨lost, hsound, hiff⟩ := ih
      rw [after_concat, cleanRun_concat]
      cases st with
      | register tid env =>
          obtain ⟨more, hsound', -, hmore⟩ := hsound.register env tid
          refine ⟨lost ++ more, hsound', ?_⟩
          rw [List.append_eq_nil_iff, hiff, hmore]
          refine and_congr_right fun _ => ⟨fun hfail tid' env' heq => ?_, fun hall => hall _ _ rfl⟩
          cases heq
          exact hfail
      | unregister tid readsOk =>
          refine ⟨lost, (hsound.unregister tid readsOk).1, hiff.trans ?_⟩
          refine (and_iff_left fun tid' env' heq => ?_).symm
          cases heq

theorem retires_run (cfg : AttachCfg) (steps more : List AttachStep) :
    (after cfg steps).monitor.Retires (after cfg (steps ++ more)).monitor := by
  induction more using List.reverseRecOn with
  | nil =>
      rw [List.append_nil]
      exact .refl _
  | append_singleton more st ih =>
      obtain ⟨lost, hsound, -⟩ := exists_sound cfg (steps ++ more)
      rw [← List.append_assoc, after_concat]
      exact ih.trans (hsound.retires st)

theorem Sound.destroy (h : s.Sound cfg lost) {order : List ℤ}
    (horder : ∀ t ∈ order, t ∈ s.monitor.tids) :
    (s.destroy order).Sound cfg lost ∧
      ∀ t, ((s.destroy order).monitor.threads t).active = true →
        (s.monitor.threads t).active = true ∧ t ∉ order := by
  induction order generalizing s with
  | nil => exact ⟨h, fun t ht => ⟨ht, List.not_mem_nil⟩⟩
  | cons tid order ih =>
      rw [List.forall_mem_cons] at horder
      obtain ⟨hdone, hactive⟩ := ih (h.closeThread horder.1) horder.2
      refine ⟨hdone, fun t ht => ?_⟩
      obtain ⟨hopen, hnot⟩ := hactive t ht
      have hne : t ≠ tid := by
        rintro rfl
        simp [LoggedMonitor.closeThread, AttachMonitor.after, Attempt.closeThreadLocked] at hopen
      have hsame : (s.closeThread tid).monitor.threads t = s.monitor.threads t :=
        Function.update_of_ne hne _ _
      rw [hsame] at hopen
      exact ⟨hopen, by simp [hne, hnot]⟩

end LoggedMonitor

open LoggedMonitor

/-- After every run of registrations, failed ones among them, and unregistrations, the monitor holds
what its active threads own, each of which is completely attached, and what failed registrations
lost, which is nothing exactly if they all fail clean; slot ids lead to the open slots that carry
them, and the id of a closed slot leads nowhere for the rest of the run. After the destructor only
what was lost is held and no slot id leads anywhere. -/
theorem monitor_lifetime (cfg : AttachCfg) (steps : List AttachStep) (order : List ℤ)
    (horder : order.Perm (after cfg steps).monitor.tids) :
    ∃ lost, (lost = [] ↔ CleanRun cfg steps) ∧
      Holds (after cfg steps).log (lost ++ (after cfg steps).owned) ∧
      (∀ tid, if ((after cfg steps).monitor.threads tid).active then
        tid ∈ (after cfg steps).monitor.tids ∧
          ((after cfg steps).monitor.threads tid).Attached cfg tid
        else ((after cfg steps).monitor.threads tid).resources = []) ∧
      (after cfg steps).monitor.Routed ∧
      (∀ more, (after cfg steps).monitor.Retires (after cfg (steps ++ more)).monitor) ∧
      Holds ((after cfg steps).destroy order).log lost ∧
      ∀ id, ((after cfg steps).destroy order).monitor.samplerSlots id = none := by
  obtain ⟨lost, hsound, hiff⟩ := exists_sound cfg steps
  obtain ⟨hdone, hactive⟩ := hsound.destroy fun t ht => horder.mem_iff.mp ht
  have hidle : ∀ t, (((after cfg steps).destroy order).monitor.threads t).active = false := by
    intro t
    by_contra hne
    obtain ⟨hopen, hnot⟩ := hactive t (by simpa using hne)
    exact hnot (horder.mem_iff.mpr (hsound.listed t hopen))
  refine ⟨lost, hiff, hsound.held, fun tid => ?_, hsound.routed, retires_run cfg steps, ?_,
    fun id => ?_⟩
  · split_ifs with hopen
    · exact ⟨hsound.listed tid hopen, hsound.attached tid hopen⟩
    · exact resources_of_idle hsound.wellFormed (by simpa using hopen)
  · have hnone : ((after cfg steps).destroy order).owned = [] :=
      List.flatMap_eq_nil_iff.mpr fun t _ => resources_of_idle hdone.wellFormed (hidle t)
    have hheld := hdone.held
    rwa [hnone, List.append_nil] at hheld
  · by_contra hne
    obtain ⟨⟨t, j⟩, hsome⟩ := Option.ne_none_iff_exists'.mp hne
    have hslot := (hdone.routed id t j).mp hsome
    rw [(hdone.wellFormed.idle t (hidle t)).2] at hslot
    cases hslot

def ringMaps : AttachEnv where
  openEvent kind i := .ok (if kind = .counter then 13 + i else 17 + i)
  mapScratch := none
  mapRing := fun _ => some 0x7000
  mapAux := fun _ => none
  epollAdd := fun _ => true

def attachAndFail : List AttachStep := [.register 11 ringMaps, .register 12 ringFails]

/-- Thread 11 holds three descriptors and its buffer until the destructor runs. The ring buffer of
thread 12 cannot be mapped: its descriptor outlives the monitor. -/
theorem monitor_lifetime_small : ∃ lost, lost ≠ [] ∧
    Holds (after threeEvents attachAndFail).log (lost ++ (after threeEvents attachAndFail).owned) ∧
    (after threeEvents attachAndFail).owned =
      [.buffer 0x7000 threeEvents.ringBytes, .fd 17, .fd 13, .fd 14] ∧
    ((after threeEvents attachAndFail).monitor.threads 11).Attached threeEvents 11 ∧
    Holds ((after threeEvents attachAndFail).destroy [12, 11]).log lost := by
  have htids : (after threeEvents attachAndFail).monitor.tids = [11, 12] := by
    with_unfolding_all rfl
  obtain ⟨lost, hiff, hopen, hthreads, -, -, hheld, -⟩ :=
    monitor_lifetime threeEvents attachAndFail [12, 11] (htids ▸ .swap ..)
  have hactive : ((after threeEvents attachAndFail).monitor.threads 11).active = true := by
    with_unfolding_all rfl
  have hattached := hthreads 11
  rw [if_pos hactive] at hattached
  refine ⟨lost, fun hnil => ?_, hopen, by with_unfolding_all rfl, hattached.2, hheld⟩
  have hfails : ((after threeEvents [.register 11 ringMaps]).monitor.registerThreadLocked
      threeEvents ringFails 12).1 ≠ none := by
    with_unfolding_all decide
  rcases hiff.mp hnil [.register 11 ringMaps] 12 ringFails [] rfl hfails with
    ⟨i, -, hbad⟩ | hbad | ⟨-, k, -, hmaps, -⟩
  · exact hbad rfl
  · exact hbad rfl
  · have hmap := (hmaps 0 (Nat.zero_le k)).1
    simp [mmap, ringFails] at hmap

end RdSpeTool
