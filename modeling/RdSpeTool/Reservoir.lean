import RdSpeTool.ThreadShape

/-!
# The replacement test of the reservoir

The slot choice replaces an armed seed with probability `1 / samples`, one test per slot. Sample
counts start at one, grow only in a pass over armed slots, and go back to one when a seed is
installed or cleared. A count above one would need an earlier slot whose test failed, so no slot
is ever tested with a count above one: slot 0 always loses its seed.
-/

namespace RdSpeTool

open ProbeTable

namespace Meter

variable {k : MeterCtl} {m : Meter}

def OneSample (m : Meter) : Prop := ∀ x ∈ m.cells, x.samples = 1

/-- A test with the count one succeeds for every random number. -/
theorem replacePass_of_one (rng : U64) {x : Cell} (rest : List Cell) (hx : x.samples = 1) :
    replacePass rng (x :: rest) = (x.sampled :: rest, (rdNextRandom rng).2, some 0) := by
  have hmod : (rdNextRandom rng).1 % (if x.samples ≠ 0 then x.samples else 1) = 0 := by
    rw [hx]
    simp
  simp only [replacePass]
  rw [if_pos hmod]

/-- With every cell armed and tested at count one, a candidate goes to cell 0. -/
theorem bpHit_full (hm : m.Sized k) (hone : m.OneSample) (harmed : m.AllArmed) {t : ℕ}
    {regs : Option PtRegs} {env : HitEnv} {r : PtRegs} {target : Target} {a : U64}
    (h : m.Admits k t regs env r target a) :
    m.bpHit k t regs env =
      ((m.addCandidate.addSeen.resample (m.cells.modify 0 Cell.sampled)
        (rdNextRandom m.rng).2).addAccepted.addEviction).seeded k 0 target t
          (rdComputeEffectiveAddress target.decode r) a env := by
  have hpos : 0 < m.cells.length := hm.length_eq.symm ▸ hm.capacity_pos
  obtain ⟨x, rest, hcells⟩ : ∃ x rest, m.cells = x :: rest :=
    List.exists_cons_of_length_pos hpos
  have hx : x ∈ m.cells := hcells ▸ List.mem_cons_self
  have hnone : m.addCandidate.cells.findIdx? (fun x => x.state == .idle) = none := by
    rw [List.findIdx?_eq_none_iff]
    intro y hy
    rw [harmed y hy]
    rfl
  have hpass : replacePass m.addCandidate.rng m.addCandidate.cells =
      (m.cells.modify 0 Cell.sampled, (rdNextRandom m.rng).2, some 0) := by
    change replacePass m.rng m.cells = _
    rw [hcells, replacePass_of_one m.rng rest (hone x hx)]
    rfl
  have hpick : m.addCandidate.pick k =
      ((m.addCandidate.addSeen.resample (m.cells.modify 0 Cell.sampled)
        (rdNextRandom m.rng).2).addAccepted, some (0, true)) := by
    have hk := hm.capacity_pos
    unfold pick
    rw [if_neg (by omega), hnone]
    dsimp only
    rw [hpass]
    rfl
  rw [bpHit_of_admits h, hpick]
  dsimp only
  have hk := hm.capacity_pos
  rw [if_neg (by omega), install_eq k _ hk (by simpa [resample, addAccepted] using hpos)]
  congr 1
  have hstate : ((m.addCandidate.addSeen.resample (m.cells.modify 0 Cell.sampled)
      (rdNextRandom m.rng).2).addAccepted.cells[0]?.map Cell.state) = some .armed := by
    change (m.cells.modify 0 Cell.sampled)[0]?.map Cell.state = _
    have hs : x.sampled.state = x.state := by
      unfold Cell.sampled
      split_ifs <;> rfl
    rw [hcells, List.modify_zero_cons, List.getElem?_cons_zero, Option.map_some, hs, harmed x hx]
  unfold countEviction
  rw [if_pos ⟨rfl, hstate⟩]

theorem seeded_oneSample {i : ℕ} (h : ∀ j x, j ≠ i → m.cells[j]? = some x → x.samples = 1)
    (target : Target) (t : ℕ) (seedVa seedAccess : U64) (env : HitEnv) :
    (m.seeded k i target t seedVa seedAccess env).OneSample := by
  intro y hy
  obtain ⟨j, hj⟩ := List.mem_iff_getElem?.mp hy
  unfold seeded at hj
  split_ifs at hj
  · obtain ⟨x, hx, ⟨-, rfl⟩ | ⟨hne, rfl⟩⟩ := getElem?_modify_cases hj
    · rfl
    · exact h j y hne.symm hx
  · obtain ⟨x, hx, ⟨-, rfl⟩ | ⟨hne, rfl⟩⟩ := getElem?_modify_cases hj
    · rw [Cell.park_samples]
      rfl
    · exact h j y hne.symm hx

theorem bpHit_oneSample (hm : m.Sized k) (hone : m.OneSample) (t : ℕ) (regs : Option PtRegs)
    (env : HitEnv) : (m.bpHit k t regs env).OneSample := by
  by_cases hadm : ∃ r target a, m.Admits k t regs env r target a
  · obtain ⟨r, target, a, hadm⟩ := hadm
    by_cases harmed : m.AllArmed
    · rw [bpHit_full hm hone harmed hadm]
      apply seeded_oneSample
      intro j x hj hx
      obtain ⟨x', hx', ⟨rfl, -⟩ | ⟨-, rfl⟩⟩ := getElem?_modify_cases hx
      · exact absurd rfl hj
      · exact hone x (List.mem_of_getElem? hx')
    · rcases bpHit_cases hm hadm with ⟨i, x, -, -, he⟩ | ⟨hall, -⟩
      · rw [he]
        apply seeded_oneSample
        intro j x _ hx
        exact hone x (List.mem_of_getElem? hx)
      · exact absurd hall harmed
  · rw [bpHit_of_not_admits (by simpa using hadm)]
    exact hone

theorem wpHit_oneSample (hm : m.Sized k) (hone : m.OneSample) (i : ℕ) (env : HitEnv) :
    (m.wpHit k i env).OneSample := by
  intro y hy
  obtain ⟨j, hj⟩ := List.mem_iff_getElem?.mp hy
  obtain ⟨x, hx, hstep⟩ := wpHit_cell hm hj
  have hsx := hone x (List.mem_of_getElem? hx)
  cases hstep with
  | kept hy => exact hy ▸ hsx
  | skipped _ _ _ hy => exact hy ▸ hsx
  | freed _ _ _ hy =>
      rw [hy, Cell.park_samples]
      rfl

end Meter

theorem oneSample_step {c c' : SessionCtl} {th th' : Thread} (hc : c.Ready) (hs : Shaped c th)
    (h : th.meter.OneSample) (hstep : ThreadStep c th c' th') : th'.meter.OneSample := by
  cases hstep with
  | same => exact h
  | hit ht ha =>
      rw [meter_hit]
      cases ht with
      | bp t regs env => exact Meter.bpHit_oneSample (hs.sized hc ha) h t regs env
      | wp i regs env => exact Meter.wpHit_oneSample (hs.sized hc ha) h i env
  | window b =>
      unfold Thread.window
      split_ifs
      · intro x hx
        obtain ⟨s, hs', rfl⟩ := List.mem_map.mp hx
        obtain ⟨s', hs'', rfl⟩ := List.mem_map.mp hs'
        exact h s'.toCell (List.mem_map_of_mem hs'')
      · exact h
  | reset hr mods =>
      obtain ⟨p, hp, -⟩ := hs.reset_parked mods
      rw [hp]
      intro x hx
      obtain ⟨s, hs', rfl⟩ := List.mem_map.mp hx
      obtain ⟨s', -, rfl⟩ := List.mem_map.mp hs'
      rfl
  | detach ha =>
      unfold rdThreadDetachLive
      rw [hs.liveDetached ha]
      intro x hx
      simp at hx

/-- No sample count of a reachable thread is ever above one between hits. -/
theorem Session.Reachable.oneSample {s : Session} (h : s.Reachable) {th : Thread}
    (hth : th ∈ s.threads) : th.meter.OneSample := by
  refine h.shaped_induction (I := fun _ th => th.meter.OneSample) ?_
    (fun _ _ _ _ hc hs hi hstep => oneSample_step hc hs hi hstep) hth
  intro c arg _ x hx
  rw [newThread_eq] at hx
  obtain ⟨s, hs, rfl⟩ := List.mem_map.mp hx
  obtain ⟨s', hs', rfl⟩ := List.mem_map.mp hs
  obtain ⟨i, -, rfl⟩ := List.mem_map.mp hs'
  rfl

/-! ## The fate of armed seeds -/

/-- The seed a slot holds, with the generation that names it. -/
structure Seed where
  state : WpState
  seedVa : U64
  seedAccess : U64
  seedPcOffset : U64
  accessSize : ℕ
  targetIndex : ℕ
  generation : U32
  deriving DecidableEq

def Cell.seed (x : Cell) : Seed :=
  ⟨x.state, x.seedVa, x.seedAccess, x.seedPcOffset, x.accessSize, x.targetIndex, x.generation⟩

def Thread.seed (th : Thread) (i : ℕ) : Option Seed := th.slots[i]?.map fun s => s.toCell.seed

def Thread.withRng (th : Thread) (rng : U64) : Thread := { th with rng := rng }

structure Candidate (c : SessionCtl) (th : Thread) (t : ℕ) (regs : Option PtRegs) (env : HitEnv) :
    Prop where
  regs_some : regs.isSome = true
  target : t < c.targetCount
  active : th.active = true
  running : c.running = true
  read : (rdReadMemAccess th env.memAccess).isSome = true

/-- The replacement test on slot `i` depends on the random stream: some state of the stream keeps
the seed of slot `i`, and some state rejects the candidate and keeps every seed. -/
def ReplacementOpen (c : SessionCtl) (th : Thread) (i t : ℕ) (regs : Option PtRegs)
    (env : HitEnv) : Prop :=
  (∃ rng, (rdHandleBpHit c (th.withRng rng) t regs env).seed i = th.seed i) ∧
    ∃ rng, (rdHandleBpHit c (th.withRng rng) t regs env).reservoirRejected =
        th.reservoirRejected + 1 ∧
      ∀ j, (rdHandleBpHit c (th.withRng rng) t regs env).seed j = th.seed j

theorem nextGeneration_ne (g : U32) : nextGeneration g ≠ g := by
  unfold nextGeneration
  split_ifs with h
  · intro h1
    rw [← h1] at h
    exact absurd h (by decide)
  · bv_omega

theorem seed_meter (th : Thread) (i : ℕ) : th.seed i = th.meter.cells[i]?.map Cell.seed := by
  rw [meter_getElem?_map]
  rfl

/-- An armed cell after a hit held the same seed before, or a candidate has just been put in it. -/
theorem Meter.hit_armed {k : MeterCtl} {m : Meter} (hm : m.Sized k) {h : Hit} {j : ℕ} {y : Cell}
    (hy : (m.hit k h).cells[j]? = some y) (harmed : y.state = .armed) :
    ∃ x, m.cells[j]? = some x ∧ (y.seed = x.seed ∨
      ∃ t regs env r target a, h = .bp t regs env ∧ m.Admits k t regs env r target a ∧
        y.seed = ⟨.armed, rdComputeEffectiveAddress target.decode r, a, target.pcOffset,
          target.decode.accessSize, t, nextGeneration x.generation⟩) := by
  cases h with
  | bp t regs env =>
      obtain ⟨x, hx, hstep⟩ := bpHit_cell hm hy
      refine ⟨x, hx, ?_⟩
      cases hstep with
      | kept hu =>
          have hseed := congrArg Cell.seed hu
          exact Or.inl hseed
      | armed r target a x' hadm hu hyx =>
          have hgen := congrArg Cell.generation hu
          change x'.generation = x.generation at hgen
          refine Or.inr ⟨t, regs, env, r, target, a, rfl, hadm, ?_⟩
          rw [hyx, ← hgen]
          rfl
      | dropped r target a x' hadm hu hyx =>
          rw [hyx, Cell.park_state] at harmed
          cases harmed
  | wp i regs env =>
      obtain ⟨x, hx, hstep⟩ := wpHit_cell hm hy
      refine ⟨x, hx, Or.inl ?_⟩
      cases hstep with
      | kept hyx => rw [hyx]
      | skipped _ _ _ hyx =>
          rw [hyx]
          rfl
      | freed _ _ _ hyx =>
          rw [hyx, Cell.park_state] at harmed
          cases harmed

/-- The same for the slots of a thread. -/
theorem hit_armed_slot {c : SessionCtl} {th : Thread} (hm : th.meter.Sized c.meterCtl) {h : Hit}
    {s : Slot} (hs : s ∈ (th.hit c h).slots) (harmed : s.state = .armed) :
    (∃ s' ∈ th.slots, s'.state = .armed ∧ s.toCell.seed = s'.toCell.seed) ∨
      ∃ t regs env r target a, h = .bp t regs env ∧
        th.meter.Admits c.meterCtl t regs env r target a ∧ s.seedAccess = a ∧
        s.targetIndex = t ∧ s.seedPcOffset = target.pcOffset := by
  obtain ⟨j, hj⟩ := List.mem_iff_getElem?.mp hs
  have hcell : (th.meter.hit c.meterCtl h).cells[j]? = some s.toCell := by
    rw [← meter_hit, List.getElem?_map, hj]
    rfl
  obtain ⟨x, hx, hsame | ⟨t, regs, env, r, target, a, hh, hadm, hseed⟩⟩ :=
    Meter.hit_armed hm hcell harmed
  · left
    obtain ⟨s', hs', rfl⟩ := List.mem_map.mp (List.mem_of_getElem? hx)
    exact ⟨s', hs', (congrArg Seed.state hsame).symm.trans harmed, hsame⟩
  · right
    exact ⟨t, regs, env, r, target, a, hh, hadm, congrArg Seed.seedAccess hseed,
      congrArg Seed.targetIndex hseed, congrArg Seed.seedPcOffset hseed⟩

/-- A full set of slots loses the seed of slot 0 and nothing else, whatever the stream. -/
theorem bpHit_full_thread {c : SessionCtl} {th : Thread} (hm : th.meter.Sized c.meterCtl)
    (hone : th.meter.OneSample) (harmed : ∀ s ∈ th.slots, s.state = .armed) {t : ℕ}
    {regs : Option PtRegs} {env : HitEnv} (h : Candidate c th t regs env) (rng : U64) :
    (rdHandleBpHit c (th.withRng rng) t regs env).seed 0 ≠ th.seed 0 ∧
      (∀ j, j ≠ 0 → (rdHandleBpHit c (th.withRng rng) t regs env).seed j = th.seed j) ∧
      (rdHandleBpHit c (th.withRng rng) t regs env).reservoirRejected = th.reservoirRejected := by
  obtain ⟨r, rfl⟩ := Option.isSome_iff_exists.mp h.regs_some
  obtain ⟨a, ha⟩ := Option.isSome_iff_exists.mp h.read
  have htarget : t < c.targets.length := h.target
  have hadm : (th.withRng rng).meter.Admits c.meterCtl t (some r) env r c.targets[t] a :=
    ⟨rfl, List.getElem?_eq_getElem htarget, h.active, h.running, ha⟩
  have hall : (th.withRng rng).meter.AllArmed := by
    intro x hx
    obtain ⟨s, hs, rfl⟩ := List.mem_map.mp hx
    exact harmed s hs
  have hm' : (th.withRng rng).meter.Sized c.meterCtl := ⟨hm.length_eq, hm.capacity_pos⟩
  have hone' : (th.withRng rng).meter.OneSample := hone
  have hstep := (meter_rdHandleBpHit c (th.withRng rng) t (some r) env).trans
    (Meter.bpHit_full hm' hone' hall hadm)
  generalize rdHandleBpHit c (th.withRng rng) t (some r) env = th' at hstep
  have hcells : th'.meter.cells = _ := congrArg Meter.cells hstep
  have hsampled : ∀ x : Cell, x.sampled.seed = x.seed := by
    intro x
    unfold Cell.sampled
    split_ifs <;> rfl
  refine ⟨?_, ?_, ?_⟩
  · have hpos : 0 < th.meter.cells.length := hm.length_eq.symm ▸ hm.capacity_pos
    rw [seed_meter, seed_meter, hcells]
    have hx := List.getElem?_eq_getElem hpos
    have hgen := nextGeneration_ne th.meter.cells[0].generation
    have hst : th.meter.cells[0].state = .armed := hall _ (List.getElem_mem hpos)
    generalize th.meter.cells[0] = x at hx hgen hst
    have hg : x.sampled.generation = x.generation := congrArg Seed.generation (hsampled x)
    have hx' : (th.withRng rng).meter.cells[0]? = some x := hx
    unfold Meter.seeded
    split_ifs
    · simp only [Meter.updateCell, Meter.addEviction, Meter.addAccepted, Meter.resample,
        List.getElem?_modify_eq, hx', hx, Option.map_some, ne_eq]
      intro he
      have hge := congrArg Seed.generation (Option.some.inj he)
      simp only [Cell.seed, Cell.watch, Cell.arm, hg] at hge
      exact hgen hge
    · simp only [Meter.updateCell, Meter.addEviction, Meter.addAccepted, Meter.resample,
        Meter.addDropped, List.getElem?_modify_eq, hx', hx, Option.map_some, ne_eq]
      intro he
      have hse := congrArg Seed.state (Option.some.inj he)
      simp only [Cell.seed, Cell.park_state, Cell.clear, hst] at hse
      cases hse
  · intro j hj
    rw [seed_meter, seed_meter, hcells]
    unfold Meter.seeded
    split_ifs
    · simp only [Meter.updateCell, Meter.addEviction, Meter.addAccepted, Meter.resample,
        List.getElem?_modify_ne _ _ hj.symm]
      rfl
    · simp only [Meter.updateCell, Meter.addEviction, Meter.addAccepted, Meter.resample,
        Meter.addDropped, List.getElem?_modify_ne _ _ hj.symm]
      rfl
  · have hrej : th'.reservoirRejected = _ := congrArg Meter.reservoirRejected hstep
    rw [hrej]
    unfold Meter.seeded
    split_ifs <;> rfl

theorem not_replacementOpen {s : Session} (h : s.Reachable) {th : Thread} (hth : th ∈ s.threads)
    (harmed : ∀ x ∈ th.slots, x.state = .armed) (i : ℕ) {t : ℕ} {regs : Option PtRegs}
    {env : HitEnv} (hcand : Candidate s.toSessionCtl th t regs env) :
    ¬ ReplacementOpen s.toSessionCtl th i t regs env := by
  rintro ⟨-, rng, hrej, -⟩
  have hfull := bpHit_full_thread ((h.shaped hth).sized (h.ready hth) hcand.active)
    (h.oneSample hth) harmed hcand rng
  rw [hfull.2.2] at hrej
  omega

/-- In every reachable thread whose slots are all armed, no candidate meets an open replacement
test, on any slot. -/
theorem replacement_never_open (s : Session) (h : s.Reachable) (th : Thread) (hth : th ∈ s.threads)
    (harmed : ∀ x ∈ th.slots, x.state = .armed) (i t : ℕ)
    (regs : Option PtRegs) (env : HitEnv) (hcand : Candidate s.toSessionCtl th t regs env) :
    ¬ ReplacementOpen s.toSessionCtl th i t regs env :=
  not_replacementOpen h hth harmed i hcand

def armedRun : List SessionEvent := smallRun 0 ++ [.hit 0 (.bp 0 (some smallRegs) (smallHitEnv 5))]

def armedSession : Session := (rdWpctlOpen 1).run armedRun

def armedThread : Thread :=
  ((newThread (smallSession 0).toSessionCtl smallThread).hit (smallSession 0).toSessionCtl
    (.bp 0 (some smallRegs) (smallHitEnv 5)))

theorem candidate_armedThread :
    Candidate armedSession.toSessionCtl armedThread 0 (some smallRegs) (smallHitEnv 9) :=
  ⟨rfl, by decide, rfl, rfl, rfl⟩

theorem replacement_never_open_armedSession :
    ¬ ReplacementOpen armedSession.toSessionCtl armedThread 0 0 (some smallRegs) (smallHitEnv 9) :=
  replacement_never_open armedSession ⟨1, armedRun, rfl⟩ armedThread List.mem_cons_self
    (by decide) 0 0 (some smallRegs) (smallHitEnv 9) candidate_armedThread

/-- Not every full set of slots meets an open replacement test. -/
theorem replacement_open_fails : ¬ ∀ (s : Session), s.Reachable → ∀ th ∈ s.threads,
    (∀ x ∈ th.slots, x.state = .armed) → ∀ i < s.wpCapacity, ∀ t regs env,
      Candidate s.toSessionCtl th t regs env →
        ReplacementOpen s.toSessionCtl th i t regs env := by
  intro hall
  have hmem : armedThread ∈ armedSession.threads := List.mem_cons_self
  refine not_replacementOpen ⟨1, armedRun, rfl⟩ hmem (by decide) 0 candidate_armedThread ?_
  exact hall armedSession ⟨1, armedRun, rfl⟩ armedThread hmem (by decide) 0
    (by decide) 0 (some smallRegs) (smallHitEnv 9) candidate_armedThread

end RdSpeTool
