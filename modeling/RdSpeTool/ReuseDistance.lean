import RdSpeTool.ThreadShape
import RdSpeTool.Results

/-!
# Reuse distances of one window

A thread runs through a fixed trace of memory accesses. Before each access the execute breakpoint
may take a sample of it, then every slot whose hardware range overlaps the access is reported once.
The counter reads the number of the access. Whatever the samples, the random stream and the
failures of `modify_user_hw_breakpoint`, a recorded reuse joins an access to the first later access
that overlaps it.
-/

namespace RdSpeTool

structure Access where
  addr : U64
  size : ℕ
  size_pos : 0 < size

def Access.Overlaps (a b : Access) : Prop :=
  a.addr.toNat < b.addr.toNat + b.size ∧ b.addr.toNat < a.addr.toNat + a.size

instance (a b : Access) : Decidable (a.Overlaps b) := inferInstanceAs (Decidable (_ ∧ _))

theorem Access.overlaps_self (a : Access) : a.Overlaps a := by
  have h := a.size_pos
  exact ⟨by omega, by omega⟩

/-- The hardware range of a watchpoint meets an access. -/
def PerfEvent.Watches (e : PerfEvent) (a : Access) : Prop :=
  e.bpAddr.toNat < a.addr.toNat + a.size ∧ a.addr.toNat < e.bpAddr.toNat + e.bpLen

instance (e : PerfEvent) (a : Access) : Decidable (e.Watches a) := inferInstanceAs (Decidable (_ ∧ _))

/-- A thread in the middle of its trace: the number of the next access, the slots already reported
for it, and the targets sampled so far. -/
structure Moment where
  next : ℕ
  reported : Finset ℕ
  sampledAt : ℕ → Option ℕ
  thread : Thread

def Moment.start (th : Thread) : Moment := ⟨0, ∅, fun _ => none, th⟩

section Trace

variable (c : SessionCtl) (base : ℕ) (accs : List Access)

/-- The counter reads `base + n` before access `n`, if the read succeeds. -/
def ReadsAt (n : ℕ) (env : HitEnv) : Prop := ∀ a ∈ env.memAccess, a.toNat = base + n

structure Moment.Due (m : Moment) (i : ℕ) (a : Access) : Prop where
  next_access : accs[m.next]? = some a
  first : i ∉ m.reported
  watches : ∃ s, m.thread.slots[i]? = some s ∧ s.wpEvent.Watches a

inductive Moment.Step : Moment → Moment → Prop
  | sample (m : Moment) (t : ℕ) (target : Target) (regs : PtRegs) (env : HitEnv) (a : Access)
      (hfirst : m.reported = ∅) (honce : m.sampledAt m.next = none)
      (hnext : accs[m.next]? = some a) (htarget : c.targets[t]? = some target)
      (hva : rdComputeEffectiveAddress target.decode regs = a.addr)
      (hsize : target.decode.accessSize = a.size) (hread : ReadsAt base m.next env) :
      Step m { m with
        sampledAt := Function.update m.sampledAt m.next (some t)
        thread := rdHandleBpHit c m.thread t (some regs) env }
  | report (m : Moment) (i : ℕ) (regs : Option PtRegs) (env : HitEnv) (a : Access)
      (hdue : m.Due accs i a) (hread : ReadsAt base m.next env) :
      Step m { m with
        reported := insert i m.reported
        thread := rdHandleWpHit c m.thread i regs env }
  | access (m : Moment) (a : Access) (hnext : accs[m.next]? = some a)
      (hdone : ∀ i, ¬ m.Due accs i a) : Step m { m with next := m.next + 1, reported := ∅ }

/-- The seed in cell `x` of slot `i` was taken at access `s`: the hardware watches that access, it
was not met again, and the report of the sampled access itself is skipped. -/
structure Moment.SeedAt (m : Moment) (i : ℕ) (x : Cell) (s : ℕ) (a : Access) : Prop where
  access : accs[s]? = some a
  le_next : s ≤ m.next
  sampled : m.sampledAt s = some x.targetIndex
  addr : x.wpEvent.bpAddr = a.addr
  len : x.wpEvent.bpLen = a.size
  seedAccess : x.seedAccess.toNat = base + s
  earlier : s < m.next → x.skipFirstHit = false ∧ i ∉ m.reported ∧
    ∀ k b, s < k → k < m.next → accs[k]? = some b → ¬ a.Overlaps b
  current : s = m.next → (x.skipFirstHit = true ↔ i ∉ m.reported)

/-- Every armed slot holds the seed of an access of the trace. -/
structure Moment.Tracked (m : Moment) : Prop where
  sized : m.thread.meter.Sized c.meterCtl
  active : m.thread.active = true
  seeds : ∀ i x, m.thread.meter.cells[i]? = some x → x.state = .armed →
    ∃ s a, m.SeedAt base accs i x s a

end Trace

namespace Moment

variable {c : SessionCtl} {base : ℕ} {accs : List Access} {m : Moment}

theorem SeedAt.watches_iff {i s : ℕ} {x : Cell} {a b : Access} (h : m.SeedAt base accs i x s a) :
    x.wpEvent.Watches b ↔ a.Overlaps b := by
  unfold PerfEvent.Watches Access.Overlaps
  rw [h.addr, h.len]

theorem sized_hit {th : Thread} (hm : th.meter.Sized c.meterCtl) (ht : Hit) :
    (th.hit c ht).meter.Sized c.meterCtl := by
  have hl := congrArg (fun f : Frame => f.slots.length) (frame_hit c th ht)
  refine ⟨?_, hm.capacity_pos⟩
  rw [← hm.length_eq]
  simpa using hl

theorem active_hit {th : Thread} (ha : th.active = true) (ht : Hit) :
    (th.hit c ht).active = true :=
  (congrArg Frame.active (frame_hit c th ht)).trans ha

theorem tracked_start {th : Thread} (hm : th.meter.Sized c.meterCtl) (ha : th.active = true)
    (hidle : ∀ x ∈ th.slots, x.state = .idle) : (Moment.start th).Tracked c base accs := by
  refine ⟨hm, ha, ?_⟩
  intro i x hx harmed
  obtain ⟨s, hs, rfl⟩ := List.mem_map.mp (List.mem_of_getElem? hx)
  rw [hidle s hs] at harmed
  cases harmed

/-- A sampled access is a seed that waits for its own report; the other seeds are older. -/
theorem tracked_sample (h : m.Tracked c base accs) {t : ℕ} {target : Target} {regs : PtRegs}
    {env : HitEnv} {a : Access} (hfirst : m.reported = ∅) (honce : m.sampledAt m.next = none)
    (hnext : accs[m.next]? = some a) (htarget : c.targets[t]? = some target)
    (hva : rdComputeEffectiveAddress target.decode regs = a.addr)
    (hsize : target.decode.accessSize = a.size) (hread : ReadsAt base m.next env) :
    Tracked c base accs { m with
      sampledAt := Function.update m.sampledAt m.next (some t)
      thread := rdHandleBpHit c m.thread t (some regs) env } := by
  refine ⟨sized_hit h.sized (.bp t (some regs) env), active_hit h.active (.bp t (some regs) env), ?_⟩
  intro i y hy harmed
  rw [meter_rdHandleBpHit] at hy
  obtain ⟨x, hx, hstep⟩ := Meter.bpHit_cell h.sized hy
  cases hstep with
  | kept hu =>
      have hxa : x.state = .armed := (congrArg Cell.state hu).symm.trans harmed
      obtain ⟨s, b, hs⟩ := h.seeds i x hx hxa
      have hne : s ≠ m.next := by
        rintro rfl
        rw [hs.sampled] at honce
        cases honce
      obtain ⟨-, -, -, hseed, -, -, htarget, -, hskip, -, hevent⟩ := Cell.mk.inj hu
      refine ⟨s, b, hs.access, hs.le_next, ?_, hevent ▸ hs.addr, hevent ▸ hs.len,
        hseed ▸ hs.seedAccess, hskip ▸ hs.earlier, fun he => absurd he hne⟩
      change Function.update m.sampledAt m.next (some t) s = _
      rw [Function.update_of_ne hne, htarget]
      exact hs.sampled
  | armed r target' a' x' hadm hu hyx =>
      obtain rfl : regs = r := Option.some.inj hadm.regs_eq
      obtain rfl : target = target' := Option.some.inj (htarget.symm.trans hadm.target_eq)
      have hcount := hread a' (Meter.read_eq_some hadm.read_eq)
      rw [hyx]
      refine ⟨m.next, a, hnext, Nat.le_refl _, Function.update_self .., hva, hsize, hcount,
        fun he => absurd he (Nat.lt_irrefl _), fun _ => ?_⟩
      rw [hfirst]
      exact ⟨fun _ => Finset.notMem_empty i, fun _ => rfl⟩
  | dropped r target' a' x' hadm hu hyx =>
      rw [hyx, Cell.park_state] at harmed
      cases harmed

/-- A report frees the slot of an older seed and unlocks the seed of the access itself. -/
theorem tracked_report (hrun : c.running = true) (h : m.Tracked c base accs) {i : ℕ}
    {regs : Option PtRegs} {env : HitEnv} (hfirst : i ∉ m.reported) :
    Tracked c base accs { m with
      reported := insert i m.reported
      thread := rdHandleWpHit c m.thread i regs env } := by
  refine ⟨sized_hit h.sized (.wp i regs env), active_hit h.active (.wp i regs env), ?_⟩
  intro j y hy harmed
  rw [meter_rdHandleWpHit] at hy
  obtain ⟨x, hx, hstep⟩ := Meter.wpHit_cell h.sized hy
  cases hstep with
  | kept hyx hidle =>
      subst hyx
      obtain ⟨s, b, hs⟩ := h.seeds j y hx harmed
      have hji : j ≠ i := by
        intro hji
        rw [hidle hji h.active hrun] at harmed
        cases harmed
      have hmem : j ∈ insert i m.reported ↔ j ∈ m.reported := by simp [hji]
      refine ⟨s, b, hs.access, hs.le_next, hs.sampled, hs.addr, hs.len, hs.seedAccess, ?_, ?_⟩
      · change _ → _ ∧ j ∉ insert i m.reported ∧ _
        rw [hmem]
        exact hs.earlier
      · change _ → (_ ↔ j ∉ insert i m.reported)
        rw [hmem]
        exact hs.current
  | skipped hji hxa hskip hyx =>
      subst hji hyx
      obtain ⟨s, b, hs⟩ := h.seeds j x hx hxa
      -- an older seed has no hit left to skip
      have hnow : ¬ s < m.next := by
        intro hlt
        rw [(hs.earlier hlt).1] at hskip
        cases hskip
      refine ⟨s, b, hs.access, hs.le_next, hs.sampled, hs.addr, hs.len, hs.seedAccess,
        fun hlt => absurd hlt hnow, fun _ => ?_⟩
      constructor
      · intro hs
        cases hs
      · intro hj
        exact absurd (Finset.mem_insert_self j m.reported) hj
  | freed _ _ _ hyx =>
      rw [hyx, Cell.park_state] at harmed
      cases harmed

/-- Once the access itself is made, no slot in wait overlaps it, and its own seed had its report. -/
theorem tracked_access (h : m.Tracked c base accs) {a : Access}
    (hnext : accs[m.next]? = some a) (hdone : ∀ i, ¬ m.Due accs i a) :
    Tracked c base accs { m with next := m.next + 1, reported := ∅ } := by
  refine ⟨h.sized, h.active, ?_⟩
  intro i x hx harmed
  obtain ⟨s, b, hs⟩ := h.seeds i x hx harmed
  have hclear : i ∉ m.reported → ¬ b.Overlaps a := by
    intro hi hover
    obtain ⟨slot, hslot, hcell⟩ := Option.map_eq_some_iff.mp ((List.getElem?_map ..).symm.trans hx)
    refine hdone i ⟨hnext, hi, slot, hslot, ?_⟩
    have hwatch := hs.watches_iff.mpr hover
    rw [← hcell] at hwatch
    exact hwatch
  refine ⟨s, b, hs.access, Nat.le_succ_of_le hs.le_next, hs.sampled, hs.addr, hs.len,
    hs.seedAccess, fun _ => ⟨?_, Finset.notMem_empty i, ?_⟩, fun he => ?_⟩
  · rcases Nat.lt_or_eq_of_le hs.le_next with hlt | heq
    · exact (hs.earlier hlt).1
    · -- the sampled access overlaps itself, so its slot was reported
      obtain rfl : b = a := Option.some.inj ((heq ▸ hs.access).symm.trans hnext)
      by_contra hskip
      exact hclear ((hs.current heq).mp (by simpa using hskip)) b.overlaps_self
  · intro k b' hsk hk hb'
    rcases Nat.lt_or_eq_of_le (Nat.le_of_lt_succ hk) with hlt | rfl
    · exact (hs.earlier (hsk.trans hlt)).2.2 k b' hsk hlt hb'
    · obtain rfl : b' = a := Option.some.inj (hb'.symm.trans hnext)
      exact hclear (hs.earlier hsk).2.1
  · have hle := hs.le_next
    change s = m.next + 1 at he
    omega

theorem tracked_step (hrun : c.running = true) {m' : Moment} (h : m.Tracked c base accs)
    (hstep : Step c base accs m m') : m'.Tracked c base accs := by
  cases hstep with
  | sample t target regs env a hfirst honce hnext htarget hva hsize hread =>
      exact tracked_sample h hfirst honce hnext htarget hva hsize hread
  | report i regs env a hdue hread => exact tracked_report hrun h hdue.first
  | access a hnext hdone => exact tracked_access h hnext hdone

theorem tracked_run (hrun : c.running = true) {m' : Moment} (h : m.Tracked c base accs)
    (hsteps : Relation.ReflTransGen (Step c base accs) m m') : m'.Tracked c base accs := by
  induction hsteps with
  | refl => exact h
  | tail _ hstep ih => exact tracked_step hrun ih hstep

end Moment

/-- Reuse-distance correctness: in every run over every trace, a watchpoint report that changes the
target histogram before access `j` closes a seed of an access `i < j`, no access in between
overlaps the range of `i`, and it adds one to the bucket of `j - i - 1` of the target sampled at
`i`. -/
theorem reuse_distance_correct (c : SessionCtl) (hrun : c.running = true) (base : ℕ)
    (accs : List Access) (th : Thread) (ha : th.active = true)
    (hlen : th.slots.length = c.wpCapacity) (hpos : 0 < c.wpCapacity)
    (hidle : ∀ x ∈ th.slots, x.state = .idle) (m : Moment)
    (hsteps : Relation.ReflTransGen (Moment.Step c base accs) (Moment.start th) m) (slot : ℕ)
    (regs : Option PtRegs) (env : HitEnv) (b : Access) (hdue : m.Due accs slot b)
    (hread : ReadsAt base m.next env)
    (hupdate : (rdHandleWpHit c m.thread slot regs env).log2Hist ≠ m.thread.log2Hist) :
    ∃ i t a, i < m.next ∧ accs[i]? = some a ∧ m.sampledAt i = some t ∧ a.Overlaps b ∧
      (∀ k a', i < k → k < m.next → accs[k]? = some a' → ¬ a.Overlaps a') ∧
      m.next - i - 1 < 2 ^ 64 ∧
      (rdHandleWpHit c m.thread slot regs env).log2Hist = m.thread.log2Hist.modify
        (t * log2Buckets + rdLog2Bucket (BitVec.ofNat 64 (m.next - i - 1))) (· + 1) := by
  have htracked : m.Tracked c base accs :=
    Moment.tracked_run hrun (Moment.tracked_start ⟨by simpa using hlen, hpos⟩ ha hidle) hsteps
  have hmeter := congrArg Meter.log2Hist (meter_rdHandleWpHit c m.thread slot regs env)
  change (rdHandleWpHit c m.thread slot regs env).log2Hist = _ at hmeter
  rcases m.thread.meter.wpHit_results slot env with ⟨-, hsame, -⟩ | ⟨x, v, hrec, hhist, -⟩
  · exact absurd (hmeter.trans hsame) hupdate
  obtain ⟨-, hcell, harmed, hskip, -, hval⟩ := Meter.recorded_eq_some hrec
  obtain ⟨s, a, hs⟩ := htracked.seeds slot x hcell harmed
  -- a seed of the access itself would still have its first hit to skip
  have hlt : s < m.next := by
    refine lt_of_le_of_ne hs.le_next fun heq => ?_
    rw [(hs.current heq).mpr hdue.first] at hskip
    cases hskip
  have hover : a.Overlaps b := by
    obtain ⟨slot', hslot', hwatch⟩ := hdue.watches
    have hx : m.thread.meter.cells[slot]? = some slot'.toCell := by
      rw [List.getElem?_map, hslot', Option.map_some]
    obtain rfl : x = slot'.toCell := Option.some.inj (hcell.symm.trans hx)
    exact hs.watches_iff.mp hwatch
  have hcount := hread v (Meter.read_eq_some hval)
  have hdelta : (reuseDelta x.seedAccess v).toNat = m.next - s - 1 := by
    rw [reuseDelta_toNat, hcount, hs.seedAccess]
    omega
  refine ⟨s, x.targetIndex, a, hlt, hs.access, hs.sampled, hover, (hs.earlier hlt).2.2,
    hdelta ▸ (reuseDelta x.seedAccess v).isLt, ?_⟩
  rw [hmeter, hhist, ← hdelta, BitVec.ofNat_toNat, BitVec.setWidth_eq]

def pairTrace : List Access := [⟨0x2000, 4, by decide⟩, ⟨0x2002, 1, by decide⟩]

/-- The load was sampled and its own report was skipped; the store comes next. -/
def pairMoment : Moment where
  next := 1
  reported := ∅
  sampledAt := Function.update (fun _ => none) 0 (some 0)
  thread := ((newThread (smallSession 0).toSessionCtl smallThread).hit
    (smallSession 0).toSessionCtl (.bp 0 (some smallRegs) (smallHitEnv 5))).hit
      (smallSession 0).toSessionCtl (.wp 0 none (smallHitEnv 5))

theorem readsAt_smallHitEnv {base n : ℕ} {v : U64} (h : v.toNat = base + n) :
    ReadsAt base n (smallHitEnv v) := by
  intro a ha
  obtain rfl := Option.some.inj ha
  exact h

theorem pairMoment_reached : Relation.ReflTransGen
    (Moment.Step (smallSession 0).toSessionCtl 5 pairTrace)
    (Moment.start (newThread (smallSession 0).toSessionCtl smallThread)) pairMoment := by
  have hread : ReadsAt 5 0 (smallHitEnv 5) := readsAt_smallHitEnv rfl
  refine ((Relation.ReflTransGen.refl.tail
    (.sample _ 0 loadTarget smallRegs (smallHitEnv 5) _ rfl rfl rfl rfl rfl rfl hread)).tail
      (.report _ 0 none (smallHitEnv 5) _ ⟨rfl, by simp [Moment.start], _, rfl, by decide⟩ hread)).tail
        (.access _ _ rfl ?_)
  intro i hdue
  obtain ⟨s, hs, -⟩ := hdue.watches
  cases i with
  | zero => exact hdue.first (Finset.mem_insert_self ..)
  | succ n => cases hs

theorem reuse_distance_correct_pair : ∃ i t, i < 1 ∧ pairMoment.sampledAt i = some t ∧
    (rdHandleWpHit (smallSession 0).toSessionCtl pairMoment.thread 0 none
      (smallHitEnv 6)).log2Hist = pairMoment.thread.log2Hist.modify
        (t * log2Buckets + rdLog2Bucket (BitVec.ofNat 64 (1 - i - 1))) (· + 1) := by
  obtain ⟨i, t, a, hi, -, ht, -, -, -, hhist⟩ := reuse_distance_correct
    (smallSession 0).toSessionCtl rfl 5 pairTrace
    (newThread (smallSession 0).toSessionCtl smallThread) rfl rfl (by decide) (by decide)
    pairMoment pairMoment_reached 0 none (smallHitEnv 6) ⟨0x2002, 1, by decide⟩
    ⟨rfl, by simp [pairMoment], _, rfl, by decide⟩ (readsAt_smallHitEnv rfl) (by decide)
  exact ⟨i, t, hi, ht, hhist⟩

end RdSpeTool
