import RdSpeTool.ThreadShape

/-!
# Seed conservation

Every candidate is accepted or rejected, and every accepted seed is in a slot, recorded, evicted
or dropped. The balance is kept by both handlers on the meter, and by resets, windows and
detaching on the thread.
-/

namespace RdSpeTool

open ProbeTable

namespace Meter

variable {k : MeterCtl} {m : Meter}

def armedCells (m : Meter) : ℕ := m.cells.countP fun x => x.state == .armed

/-- The seed account of a thread. -/
structure Balanced (m : Meter) : Prop where
  candidate_eq : m.candidateSamples = m.reservoirSeen
  seen_eq : m.reservoirSeen = m.reservoirAccepted + m.reservoirRejected
  accepted_eq : m.reservoirAccepted = m.hits + m.evictions + m.dropped + m.armedCells

theorem armedCells_updateCell (m : Meter) {i : ℕ} {x : Cell} (hx : m.cells[i]? = some x)
    (f : Cell → Cell) : (m.updateCell i f).armedCells + (if x.state == .armed then 1 else 0) =
      m.armedCells + (if (f x).state == .armed then 1 else 0) :=
  countP_modify f (fun y : Cell => y.state == .armed) hx

theorem armedCells_parkedCell (m : Meter) {i : ℕ} {x : Cell} (hx : m.cells[i]? = some x)
    (harmed : x.state = .armed) (idleRet : ℤ) :
    (m.parkedCell k i idleRet).armedCells + 1 = m.armedCells := by
  have h := m.armedCells_updateCell hx fun x =>
    x.clear.park ⟨x.idleAddr, idleWpLen, k.running && m.active⟩ idleRet
  simpa [harmed, Cell.clear, parkedCell] using h

/-- An installed seed is in its cell, or dropped at once. -/
theorem armedCells_seeded (m : Meter) {i : ℕ} {x : Cell} (hx : m.cells[i]? = some x)
    (target : Target) (t : ℕ) (seedVa seedAccess : U64) (env : HitEnv) :
    (m.seeded k i target t seedVa seedAccess env).armedCells +
        (m.seeded k i target t seedVa seedAccess env).dropped +
        (if x.state == .armed then 1 else 0) = m.armedCells + m.dropped + 1 := by
  unfold seeded
  by_cases hr : env.modRet = 0
  · rw [if_pos hr]
    have h := m.armedCells_updateCell hx fun x => (x.arm target t seedVa seedAccess).watch
      ⟨seedVa, target.decode.accessSize, k.running && m.active⟩
    simp only [Cell.watch, Cell.arm, beq_self_eq_true, if_true] at h
    change _ + m.dropped + _ = _
    simp only [Cell.watch, Cell.arm]
    omega
  · rw [if_neg hr]
    have h := m.addDropped.armedCells_updateCell hx fun x =>
      (x.arm target t seedVa seedAccess).clear.park
        ⟨x.idleAddr, idleWpLen, k.running && m.active⟩ env.idleRet
    simp only [Cell.park_state] at h
    have hd : (m.addDropped.armedCells : ℕ) = m.armedCells := rfl
    change _ + (m.dropped + 1) + _ = _
    simp only [Cell.clear, hd] at h ⊢
    simp only [show (WpState.idle == WpState.armed) = false from rfl] at h
    simp only [Bool.false_eq_true, if_false] at h
    omega

/-- Installing an accepted seed settles an account that is one short. -/
theorem seeded_balanced {i : ℕ} {x : Cell} (hx : m.cells[i]? = some x)
    (h1 : m.candidateSamples = m.reservoirSeen)
    (h2 : m.reservoirSeen = m.reservoirAccepted + m.reservoirRejected)
    (h3 : m.reservoirAccepted + (if x.state == .armed then 1 else 0) =
      m.hits + m.evictions + m.dropped + m.armedCells + 1)
    (target : Target) (t : ℕ) (seedVa seedAccess : U64) (env : HitEnv) :
    (m.seeded k i target t seedVa seedAccess env).Balanced := by
  have hc := m.armedCells_seeded (k := k) hx target t seedVa seedAccess env
  have hrest : ∀ m' : Meter, m' = m.seeded k i target t seedVa seedAccess env →
      m'.candidateSamples = m.candidateSamples ∧ m'.reservoirSeen = m.reservoirSeen ∧
      m'.reservoirAccepted = m.reservoirAccepted ∧ m'.reservoirRejected = m.reservoirRejected ∧
      m'.hits = m.hits ∧ m'.evictions = m.evictions := by
    rintro m' rfl
    unfold seeded
    split_ifs <;> exact ⟨rfl, rfl, rfl, rfl, rfl, rfl⟩
  obtain ⟨k1, k2, k3, k4, k5, k6⟩ := hrest _ rfl
  refine ⟨?_, ?_, ?_⟩
  · rw [k1, k2]
    exact h1
  · rw [k2, k3, k4]
    exact h2
  · rw [k3, k5, k6]
    omega

theorem bpHit_balanced (hm : m.Sized k) (h : m.Balanced) (t : ℕ) (regs : Option PtRegs)
    (env : HitEnv) : (m.bpHit k t regs env).Balanced := by
  obtain ⟨h1, h2, h3⟩ := h
  by_cases hadm : ∃ r target a, m.Admits k t regs env r target a
  · obtain ⟨r, target, a, hadm⟩ := hadm
    rcases bpHit_cases hm hadm with ⟨i, x, hx, hidle, he⟩ |
      ⟨harmed, cells, rng, hres, ⟨i, hi, he⟩ | he⟩
    · rw [he]
      apply seeded_balanced (m := m.addCandidate.addSeen.addAccepted) hx
      · exact congrArg (· + 1) h1
      · simp only [addCandidate, addSeen, addAccepted]
        omega
      · simp only [hidle, addCandidate, addSeen, addAccepted, armedCells] at h3 ⊢
        simp only [show (WpState.idle == WpState.armed) = false from rfl, Bool.false_eq_true,
          if_false]
        omega
    · have hcount : (cells.countP fun x => x.state == .armed) = m.armedCells :=
        hres.countP_state (fun st => st == .armed)
      have hlt : i < cells.length := hres.length_eq ▸ hi
      have hx := List.getElem?_eq_getElem hlt
      obtain ⟨y, hy, hu⟩ := hres.getElem? hx
      have hstate : cells[i].state = .armed :=
        (congrArg Cell.state hu).trans (harmed y (List.mem_of_getElem? hy))
      rw [he]
      apply seeded_balanced
        (m := (m.addCandidate.addSeen.resample cells rng).addAccepted.addEviction) hx
      · exact congrArg (· + 1) h1
      · simp only [addCandidate, addSeen, addAccepted, addEviction, resample]
        omega
      · simp only [addCandidate, addSeen, addAccepted, addEviction, resample, armedCells, hstate,
          beq_self_eq_true, if_true] at hcount h3 ⊢
        omega
    · have hcount : (cells.countP fun x => x.state == .armed) = m.armedCells :=
        hres.countP_state (fun st => st == .armed)
      rw [he]
      refine ⟨congrArg (· + 1) h1, ?_, ?_⟩
      · simp only [addCandidate, addSeen, addRejected, resample]
        omega
      · simp only [addCandidate, addSeen, addRejected, resample, armedCells] at hcount h3 ⊢
        omega
  · rw [bpHit_of_not_admits (by simpa using hadm)]
    exact ⟨h1, h2, h3⟩

theorem wpHit_balanced (hm : m.Sized k) (h : m.Balanced) (i : ℕ) (env : HitEnv) :
    (m.wpHit k i env).Balanced := by
  obtain ⟨h1, h2, h3⟩ := h
  rcases wpHit_cases hm i env with ⟨he, -⟩ | ⟨x, hx, harmed, -, -, ⟨-, he⟩ | ⟨-, he | ⟨a, -, -, he⟩⟩⟩
  · rw [he]
    exact ⟨h1, h2, h3⟩
  · rw [he]
    refine ⟨h1, h2, h3.trans ?_⟩
    have hc := m.armedCells_updateCell hx Cell.skip
    simp only [Cell.skip, harmed, beq_self_eq_true, if_true] at hc
    have hs : (m.updateCell i Cell.skip).armedCells = m.armedCells := Nat.add_right_cancel hc
    rw [hs]
    rfl
  · rw [he]
    have hc := m.addDropped.armedCells_parkedCell (k := k) hx harmed env.idleRet
    refine ⟨h1, h2, ?_⟩
    simp only [parkedCell, updateCell, addDropped, armedCells] at *
    omega
  · have hb : (m.addBucket k x a).addHit.cells[i]? = some x := by
      unfold addBucket
      dsimp only
      split_ifs <;> exact hx
    have hc := (m.addBucket k x a).addHit.armedCells_parkedCell (k := k) hb harmed env.idleRet
    rw [he]
    have hcounters : ∀ m' : Meter, m' = m.addBucket k x a →
        m'.candidateSamples = m.candidateSamples ∧ m'.reservoirSeen = m.reservoirSeen ∧
        m'.reservoirAccepted = m.reservoirAccepted ∧ m'.reservoirRejected = m.reservoirRejected ∧
        m'.hits = m.hits ∧ m'.evictions = m.evictions ∧ m'.dropped = m.dropped ∧
        m'.armedCells = m.armedCells := by
      rintro m' rfl
      unfold addBucket
      dsimp only
      split_ifs <;> exact ⟨rfl, rfl, rfl, rfl, rfl, rfl, rfl, rfl⟩
    obtain ⟨k1, k2, k3, k4, k5, k6, k7, k8⟩ := hcounters _ rfl
    generalize m.addBucket k x a = m' at *
    refine ⟨?_, ?_, ?_⟩
    · exact (k1.trans h1).trans k2.symm
    · change m'.reservoirSeen = m'.reservoirAccepted + m'.reservoirRejected
      omega
    · simp only [parkedCell, updateCell, addHit, armedCells] at *
      omega

theorem hit_balanced (hm : m.Sized k) (h : m.Balanced) (ht : Hit) : (m.hit k ht).Balanced := by
  cases ht with
  | bp t regs env => exact bpHit_balanced hm h t regs env
  | wp i regs env => exact wpHit_balanced hm h i env

end Meter

theorem armedCells_meter (th : Thread) : th.meter.armedCells = th.armedSlots := by
  unfold Meter.armedCells Thread.armedSlots
  rw [List.countP_map]
  rfl

theorem armedSlots_eq_zero {th : Thread} (h : ∀ s ∈ th.slots, s.state = .idle) :
    th.armedSlots = 0 := by
  unfold Thread.armedSlots
  rw [List.countP_eq_zero]
  intro s hs
  simp [h s hs]

theorem balanced_newThread (c : SessionCtl) (arg : ThreadRegister) :
    (newThread c arg).meter.Balanced := by
  have harmed : (newThread c arg).armedSlots = 0 := by
    apply armedSlots_eq_zero
    rw [newThread_eq]
    intro s hs
    obtain ⟨s', hs', rfl⟩ := List.mem_map.mp hs
    obtain ⟨i, -, rfl⟩ := List.mem_map.mp hs'
    rfl
  refine ⟨?_, ?_, ?_⟩
  · rw [newThread_eq]
    rfl
  · rw [newThread_eq]
    rfl
  · rw [armedCells_meter, harmed, newThread_eq]
    rfl

theorem balanced_wipe (th : Thread) : th.wipe.meter.Balanced := by
  have harmed : th.wipe.armedSlots = 0 := by
    apply armedSlots_eq_zero
    intro s hs
    obtain ⟨s', -, rfl⟩ := List.mem_map.mp hs
    rfl
  refine ⟨rfl, rfl, ?_⟩
  rw [armedCells_meter, harmed]
  rfl

theorem balanced_setEvents {th : Thread} (b : Bool) (h : th.meter.Balanced) :
    (th.setEvents b).meter.Balanced := by
  have harmed : (th.setEvents b).armedSlots = th.armedSlots := by
    unfold Thread.armedSlots Thread.setEvents
    rw [List.countP_map]
    rfl
  refine ⟨h.candidate_eq, h.seen_eq, ?_⟩
  rw [armedCells_meter, harmed, ← armedCells_meter]
  exact h.accepted_eq

/-- Detaching turns the armed seeds into drops. -/
theorem balanced_detach {th : Thread} (hd : th.liveDetached = false) (h : th.meter.Balanced) :
    (rdThreadDetachLive th).meter.Balanced := by
  unfold rdThreadDetachLive
  rw [hd]
  refine ⟨h.candidate_eq, h.seen_eq, ?_⟩
  have hacc : th.reservoirAccepted = th.hits + th.evictions + th.dropped + th.meter.armedCells :=
    h.accepted_eq
  rw [armedCells_meter] at hacc
  simp only [Meter.armedCells, List.map_nil, List.countP_nil, Bool.false_eq_true, if_false]
  change th.reservoirAccepted = th.hits + th.evictions + (th.dropped + th.armedSlots) + 0
  omega

theorem balanced_step {c c' : SessionCtl} {th th' : Thread} (hc : c.Ready) (hs : Shaped c th)
    (h : th.meter.Balanced) (hstep : ThreadStep c th c' th') : th'.meter.Balanced := by
  cases hstep with
  | same => exact h
  | hit ht ha =>
      rw [meter_hit]
      exact Meter.hit_balanced (hs.sized hc ha) h ht
  | window b =>
      unfold Thread.window
      split_ifs
      · exact balanced_setEvents b h
      · exact h
  | reset hr mods =>
      obtain ⟨p, hp, -⟩ := hs.reset_parked mods
      rw [hp]
      exact balanced_wipe p
  | detach ha => exact balanced_detach (hs.liveDetached ha) h

/-- Seed conservation in every reachable session, for every thread it ever registered. -/
theorem seed_conservation (s : Session) (h : s.Reachable) (th : Thread) (hth : th ∈ s.threads) :
    th.candidateSamples = th.reservoirSeen ∧
      th.reservoirSeen = th.reservoirAccepted + th.reservoirRejected ∧
      th.reservoirAccepted = th.hits + th.evictions + th.dropped + th.armedSlots ∧
      (th.active = false → th.armedSlots = 0) := by
  have hb : th.meter.Balanced := h.shaped_induction (I := fun _ th => th.meter.Balanced)
    (fun c arg _ => balanced_newThread c arg)
    (fun _ _ _ _ hc hs hi hstep => balanced_step hc hs hi hstep) hth
  refine ⟨hb.candidate_eq, hb.seen_eq, ?_, ?_⟩
  · rw [← armedCells_meter]
    exact hb.accepted_eq
  · intro ha
    unfold Thread.armedSlots
    rw [(h.shaped hth).slots_nil ha]
    rfl

theorem seed_conservation_small : (hitThread 0).candidateSamples = 1 ∧ (hitThread 0).hits = 1 ∧
    (hitThread 0).candidateSamples = (hitThread 0).reservoirAccepted +
      (hitThread 0).reservoirRejected ∧
    (hitThread 0).reservoirAccepted = 1 + (hitThread 0).evictions + (hitThread 0).dropped +
      (hitThread 0).armedSlots := by
  obtain ⟨-, hhits, hcand⟩ := hitThread_spec 0 (by decide)
  obtain ⟨hseen, haccepted, hheld, -⟩ := seed_conservation ((rdWpctlOpen 1).run (hitRun 0))
    ⟨1, hitRun 0, rfl⟩ (hitThread 0) (hitThread_mem 0 (by decide))
  exact ⟨hcand, hhits, hseen.trans haccepted, by rw [← hhits]; exact hheld⟩

end RdSpeTool
