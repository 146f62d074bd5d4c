import RdSpeTool.Reservoir
import RdSpeTool.Results

/-!
# Pairs across window gaps

`STOP_WINDOW` disables events and leaves armed slots alone, so a seed of one window can be reused
in a later one. The counter stands still while no window is open: the recorded distance counts the
accesses made in open windows. Without a stop in between these are all accesses.
-/

namespace RdSpeTool

open ProbeTable

inductive ClockEvent
  | access
  | window (b : Bool)
  | hit (k : ℕ) (h : Hit)

def ClockEvent.isAccess : ClockEvent → Bool
  | access => true
  | _ => false

structure Clocked where
  session : Session
  counter : ℕ

namespace Clocked

/-- The counter advances with the accesses made while a window is open. -/
def step (c : Clocked) : ClockEvent → Clocked
  | .access => { c with counter := if c.session.running then c.counter + 1 else c.counter }
  | .window b => { c with session := c.session.setWindow b }
  | .hit k h => { c with session := c.session.step (.hit k h) }

def run (c : Clocked) (es : List ClockEvent) : Clocked := es.foldl step c

theorem run_append (c : Clocked) (es fs : List ClockEvent) :
    c.run (es ++ fs) = (c.run es).run fs := List.foldl_append

def Reads (k : ℕ) (c : Clocked) : ClockEvent → Prop
  | .hit j h => j = k → ∀ a ∈ h.reading, a = BitVec.ofNat 64 c.counter
  | _ => True

/-- Every event of the run reads the counter of its moment. -/
def Timed (k : ℕ) (c : Clocked) (es : List ClockEvent) : Prop :=
  ∀ pre e post, es = pre ++ e :: post → (c.run pre).Reads k e

theorem timed_nil {k : ℕ} {c : Clocked} : c.Timed k [] := by
  intro pre e post h
  simp at h

theorem timed_cons {k : ℕ} {c : Clocked} {e : ClockEvent} {es : List ClockEvent} :
    c.Timed k (e :: es) ↔ c.Reads k e ∧ (c.step e).Timed k es := by
  constructor
  · intro h
    refine ⟨h [] e es rfl, ?_⟩
    intro pre e' post hes
    exact h (e :: pre) e' post (by rw [hes]; rfl)
  · rintro ⟨he, hes⟩ pre e' post heq
    cases pre with
    | nil =>
        obtain ⟨rfl, -⟩ := List.cons.inj heq
        exact he
    | cons e'' pre =>
        obtain ⟨rfl, htail⟩ := List.cons.inj heq
        exact hes pre e' post htail

def cell (k i : ℕ) (c : Clocked) : Option Cell :=
  c.session.threads[k]?.bind fun th => th.meter.cells[i]?

/-- Number of accesses of `es` made while a window is open. -/
def openAccesses (c : Clocked) (es : List ClockEvent) : ℕ := (c.run es).counter - c.counter

theorem counter_le_step (c : Clocked) (e : ClockEvent) : c.counter ≤ (c.step e).counter := by
  cases e with
  | access =>
      change c.counter ≤ if c.session.running then c.counter + 1 else c.counter
      split_ifs <;> omega
  | window b => exact Nat.le_refl _
  | hit k h => exact Nat.le_refl _

theorem counter_le_run (c : Clocked) (es : List ClockEvent) :
    c.counter ≤ (c.run es).counter := by
  induction es generalizing c with
  | nil => exact Nat.le_refl _
  | cons e es ih => exact (c.counter_le_step e).trans (ih (c.step e))

theorem counter_run_le (c : Clocked) (es : List ClockEvent) :
    (c.run es).counter ≤ c.counter + es.length := by
  induction es generalizing c with
  | nil => exact Nat.le_refl _
  | cons e es ih =>
      have htail := ih (c.step e)
      have hstep : (c.step e).counter ≤ c.counter + 1 := by
        cases e with
        | access =>
            change (if c.session.running then c.counter + 1 else c.counter) ≤ _
            split_ifs <;> omega
        | window b => exact Nat.le_succ _
        | hit k h => exact Nat.le_succ _
      change ((c.step e).run es).counter ≤ _
      rw [List.length_cons]
      omega

/-- While no window is closed, every access counts. -/
theorem openAccesses_eq (c : Clocked) (hr : c.session.running = true) {es : List ClockEvent}
    (hes : ∀ e ∈ es, e ≠ .window false) :
    c.openAccesses es = es.countP ClockEvent.isAccess := by
  unfold openAccesses
  induction es generalizing c with
  | nil => exact Nat.sub_self _
  | cons e es ih =>
      have htail : ∀ e' ∈ es, e' ≠ .window false := fun e' h => hes e' (List.mem_cons_of_mem e h)
      have hle := (c.step e).counter_le_run es
      change ((c.step e).run es).counter - c.counter = _
      cases e with
      | access =>
          have hstep : c.step .access = { c with counter := c.counter + 1 } := by
            simp only [step, hr, if_true]
          have htl := ih { c with counter := c.counter + 1 } hr htail
          rw [hstep] at hle ⊢
          rw [List.countP_cons_of_pos rfl, ← htl]
          change c.counter + 1 ≤ _ at hle
          change _ = _ - (c.counter + 1) + 1
          omega
      | window b =>
          cases b with
          | false => exact absurd rfl (hes _ List.mem_cons_self)
          | true =>
              rw [List.countP_cons_of_neg Bool.false_ne_true]
              exact ih (c.step (.window true)) rfl htail
      | hit k h =>
          rw [List.countP_cons_of_neg Bool.false_ne_true]
          exact ih (c.step (.hit k h)) hr htail

end Clocked

/-- Where the seed of cell `x` comes from: a breakpoint hit in an open window installed it, with
the reading of that moment, and it has been in its slot ever since. -/
structure Origin (c : Clocked) (k i : ℕ) (x : Cell) (pre : List ClockEvent) (t : ℕ)
    (regs : Option PtRegs) (env : HitEnv) (post : List ClockEvent) : Prop where
  running : (c.run pre).session.running = true
  reading : env.memAccess = some x.seedAccess
  installed : ((c.run pre).cell k i).map Cell.seed ≠ some x.seed
  kept : ∀ post1 post2, post = post1 ++ post2 →
    ((c.run (pre ++ .hit k (.bp t regs env) :: post1)).cell k i).map Cell.seed = some x.seed

/-- A reuse of the seed in `slot` is filed under its distance: in the histogram of the target and
with the pair of the two uses. -/
structure Filed (th th' : Thread) (slot : Slot) (reusePc : U64) (reuseContextId : ℕ) (delta : U64) :
    Prop where
  log2Hist : th'.log2Hist =
    th.log2Hist.modify (slot.targetIndex * log2Buckets + rdLog2Bucket delta) (· + 1)
  pairHist : th'.pairHist = (rdAddPairHistLocked th
    ⟨slot.seedPcOffset, slot.seedContextId, reusePc, reuseContextId⟩ (rdLog2Bucket delta)).pairHist

theorem recorded_filed {c : SessionCtl} {th : Thread} {i : ℕ} (regs : Option PtRegs) {env : HitEnv}
    {x : Cell} {a : U64} (hrec : th.meter.recorded c.meterCtl i env = some (x, a)) :
    ∃ slot reuseContextId, th.slots[i]? = some slot ∧ slot.toCell = x ∧
      Filed th (rdHandleWpHit c th i regs env) slot ((regs.map PtRegs.pc).getD 0) reuseContextId
        (reuseDelta x.seedAccess a) := by
  obtain ⟨hnone, -⟩ | ⟨slot, a', ctx, event, hslot, hsome, -, -, htables⟩ :=
    tables_rdHandleWpHit c th i regs env
  · rw [hnone] at hrec
    cases hrec
  obtain ⟨rfl, rfl⟩ := Prod.mk.inj (Option.some.inj (hsome.symm.trans hrec))
  refine ⟨slot, ctx, hslot, rfl, ?_, ?_⟩
  · obtain ⟨hnone, -⟩ | ⟨x, v, hrec', hhist, -⟩ := th.meter.wpHit_results i env
    · rw [hnone] at hrec
      cases hrec
    · obtain ⟨rfl, rfl⟩ := Prod.mk.inj (Option.some.inj (hrec.symm.trans hrec'))
      exact (congrArg Meter.log2Hist (meter_rdHandleWpHit c th i regs env)).trans hhist
  · have hpairs := congrArg Tables.pairHist htables
    rw [(Tables.addEvent_pairs _ c event).1, ← tables_rdAddPairHistLocked] at hpairs
    exact hpairs

namespace Clocked

variable {c : Clocked} {k i : ℕ}

theorem reachable_step (h : c.session.Reachable) (e : ClockEvent) :
    (c.step e).session.Reachable := by
  cases e with
  | access => exact h
  | window b =>
      cases b with
      | true => exact h.step (.ioctl .startWindow)
      | false => exact h.step (.ioctl .stopWindow)
  | hit k ht => exact h.step (.hit k ht)

theorem reachable_run (h : c.session.Reachable) (es : List ClockEvent) :
    (c.run es).session.Reachable := by
  induction es generalizing c with
  | nil => exact h
  | cons e es ih => exact ih (reachable_step h e)

theorem cell_eq_some {x : Cell} (h : c.cell k i = some x) :
    ∃ th, c.session.threads[k]? = some th ∧ th.meter.cells[i]? = some x :=
  Option.bind_eq_some_iff.mp h

theorem recorded_cell {th : Thread} (hth : c.session.threads[k]? = some th) {env : HitEnv}
    {x : Cell} {a : U64} (h : th.meter.recorded c.session.meterCtl i env = some (x, a)) :
    c.cell k i = some x ∧ x.state = .armed ∧ c.session.running = true ∧
      env.memAccess = some a := by
  obtain ⟨⟨-, hrun, -⟩, hcell, harmed, -, -, hread⟩ := Meter.recorded_eq_some h
  refine ⟨?_, harmed, hrun, Meter.read_eq_some hread⟩
  unfold cell
  rw [hth, Option.bind_some, hcell]

/-- Armed cells keep their seed, or were armed by the event itself. -/
theorem cell_step (hc : c.session.Reachable) {e : ClockEvent} {y : Cell}
    (hy : (c.step e).cell k i = some y) (harmed : y.state = .armed) :
    (∃ x, c.cell k i = some x ∧ x.seed = y.seed) ∨
      ∃ t regs env, e = .hit k (.bp t regs env) ∧ c.session.running = true ∧
        env.memAccess = some y.seedAccess ∧ (c.cell k i).map Cell.seed ≠ some y.seed := by
  cases e with
  | access => exact Or.inl ⟨y, hy, rfl⟩
  | window b =>
      left
      obtain ⟨th', hth', hcell⟩ := cell_eq_some hy
      obtain ⟨th, hth, rfl⟩ :=
        Option.map_eq_some_iff.mp ((List.getElem?_map ..).symm.trans hth')
      by_cases ha : th.active = true
      · rw [if_pos ha, List.getElem?_map] at hcell
        obtain ⟨s', hs', rfl⟩ := Option.map_eq_some_iff.mp hcell
        obtain ⟨s, hs, rfl⟩ :=
          Option.map_eq_some_iff.mp ((List.getElem?_map ..).symm.trans hs')
        refine ⟨s.toCell, ?_, rfl⟩
        unfold cell
        rw [hth, Option.bind_some, List.getElem?_map, hs]
        rfl
      · rw [if_neg ha] at hcell
        refine ⟨y, ?_, rfl⟩
        unfold cell
        rw [hth, Option.bind_some, hcell]
  | hit j ht =>
      obtain ⟨th', hth', hcell⟩ := cell_eq_some hy
      obtain ⟨th, hth, hcase⟩ := getElem?_modify_cases hth'
      have hold : ∀ x : Cell, th.meter.cells[i]? = some x → c.cell k i = some x := by
        intro x hx
        unfold cell
        rw [hth, Option.bind_some, hx]
      rcases hcase with ⟨rfl, rfl⟩ | ⟨-, rfl⟩
      · have hmem := List.mem_of_getElem? hth
        have hshaped := hc.shaped hmem
        cases ha : th.active with
        | false =>
            rw [hit_of_inactive c.session.toSessionCtl ha] at hcell
            exact Or.inl ⟨y, hold y hcell, rfl⟩
        | true =>
            have hsized := hshaped.sized (hc.ready hmem) ha
            rw [meter_hit] at hcell
            obtain ⟨x, hx, hsame | ⟨t, regs, env, r, target, a, rfl, hadm, hseed⟩⟩ :=
              Meter.hit_armed hsized hcell harmed
            · exact Or.inl ⟨x, hold x hx, hsame.symm⟩
            · right
              have hacc : y.seedAccess = a := congrArg Seed.seedAccess hseed
              refine ⟨t, regs, env, rfl, hadm.running, ?_, ?_⟩
              · rw [hacc]
                exact Meter.read_eq_some hadm.read_eq
              · rw [hold x hx, Option.map_some, hseed]
                intro he
                exact nextGeneration_ne _ (congrArg Seed.generation (Option.some.inj he)).symm
      · exact Or.inl ⟨y, hold y hcell, rfl⟩

end Clocked

namespace Origin

variable {c : Clocked} {k i : ℕ} {x y : Cell} {pre post : List ClockEvent} {t : ℕ}
  {regs : Option PtRegs} {env : HitEnv}

theorem extend (h : Origin c k i x pre t regs env post) {e : ClockEvent} (hxy : x.seed = y.seed)
    (hy : (c.run (pre ++ .hit k (.bp t regs env) :: (post ++ [e]))).cell k i = some y) :
    Origin c k i y pre t regs env (post ++ [e]) := by
  have hacc : x.seedAccess = y.seedAccess := congrArg Seed.seedAccess hxy
  refine ⟨h.running, hacc ▸ h.reading, hxy ▸ h.installed, ?_⟩
  intro post1 post2 he
  rcases List.eq_nil_or_concat post2 with rfl | ⟨init, e', rfl⟩
  · rw [List.append_nil] at he
    rw [← he, hy]
    rfl
  · have hsplit : post = post1 ++ init := by
      rw [List.concat_eq_append, ← List.append_assoc] at he
      exact (List.append_inj' he rfl).1
    rw [← hxy]
    exact h.kept post1 init hsplit

end Origin

/-- Every armed seed of a run that starts without seeds has an origin in the run. -/
theorem exists_origin {c : Clocked} (hc : c.session.Reachable) {k i : ℕ}
    (hidle : ∀ x, c.cell k i = some x → x.state = .idle) (es : List ClockEvent) {y : Cell}
    (hy : (c.run es).cell k i = some y) (harmed : y.state = .armed) :
    ∃ pre t regs env post, es = pre ++ .hit k (.bp t regs env) :: post ∧
      Origin c k i y pre t regs env post := by
  induction es using List.reverseRecOn generalizing y with
  | nil =>
      rw [hidle y hy] at harmed
      cases harmed
  | append_singleton es e ih =>
      have hy' := hy
      rw [c.run_append] at hy'
      rcases Clocked.cell_step (Clocked.reachable_run hc es) hy' harmed with ⟨x, hx, hseed⟩ |
        ⟨t, regs, env, rfl, hrun, hread, hnew⟩
      · have hxa : x.state = .armed := (congrArg Seed.state hseed).trans harmed
        obtain ⟨pre, t, regs, env, post, rfl, horigin⟩ := ih hx hxa
        refine ⟨pre, t, regs, env, post ++ [e], by simp, horigin.extend hseed ?_⟩
        rw [← hy]
        simp
      · refine ⟨es, t, regs, env, [], rfl, hrun, hread, hnew, ?_⟩
        intro post1 post2 he
        obtain ⟨rfl, rfl⟩ := List.nil_eq_append_iff.mp he
        rw [hy]
        rfl

/-- A recorded pair: seed and reuse were both taken in an open window, the slot stayed armed in
between whatever windows closed, and the pair is filed under its distance. Unless the counter wraps
the distance counts the accesses of open windows, with no stop in between all of them. -/
theorem pair_counts_open_accesses (c : Clocked) (hc : c.session.Reachable) (k i : ℕ)
    (hidle : ∀ x, c.cell k i = some x → x.state = .idle) (es : List ClockEvent)
    (regs : Option PtRegs) (env : HitEnv)
    (htimed : c.Timed k (es ++ [.hit k (.wp i regs env)]))
    (th : Thread) (hth : (c.run es).session.threads[k]? = some th) (x : Cell) (a : U64)
    (hrec : th.meter.recorded (c.run es).session.meterCtl i env = some (x, a)) :
    ∃ pre t regs' env' post, es = pre ++ .hit k (.bp t regs' env') :: post ∧
      Origin c k i x pre t regs' env' post ∧ (c.run es).session.running = true ∧
      (∃ th' slot reuseContextId,
        (c.run (es ++ [.hit k (.wp i regs env)])).session.threads[k]? = some th' ∧
        th.slots[i]? = some slot ∧ slot.toCell = x ∧
        Filed th th' slot ((regs.map PtRegs.pc).getD 0) reuseContextId
          (reuseDelta x.seedAccess a)) ∧
      (c.counter + es.length < 2 ^ 64 →
        (reuseDelta x.seedAccess a).toNat = (c.run pre).openAccesses
          (.hit k (.bp t regs' env') :: post) - 1 ∧
        ((∀ e ∈ post, e ≠ .window false) →
          (reuseDelta x.seedAccess a).toNat = post.countP ClockEvent.isAccess - 1)) := by
  obtain ⟨hx, harmed, hrun, hmem⟩ := Clocked.recorded_cell hth hrec
  obtain ⟨pre, t, regs', env', post, rfl, horigin⟩ := exists_origin hc hidle es hx harmed
  refine ⟨pre, t, regs', env', post, rfl, horigin, hrun, ?_, ?_⟩
  · obtain ⟨slot, reuseContextId, hslot, hcell, hfiled⟩ := recorded_filed regs hrec
    refine ⟨_, slot, reuseContextId, ?_, hslot, hcell, hfiled⟩
    rw [Clocked.run_append]
    change ((c.run _).session.threads.modify k _)[k]? = _
    rw [List.getElem?_modify_eq, hth]
    rfl
  intro hwrap
  -- both readings are counter values of the run
  have hhit : a = BitVec.ofNat 64 (c.run (pre ++ .hit k (.bp t regs' env') :: post)).counter :=
    htimed _ (.hit k (.wp i regs env)) [] rfl rfl a hmem
  have hseed : x.seedAccess = BitVec.ofNat 64 (c.run pre).counter :=
    htimed pre (.hit k (.bp t regs' env')) (post ++ [.hit k (.wp i regs env)]) (by simp) rfl _
      horigin.reading
  have hle := c.counter_run_le (pre ++ .hit k (.bp t regs' env') :: post)
  have hmono := (c.run pre).counter_le_run (.hit k (.bp t regs' env') :: post)
  rw [← c.run_append] at hmono
  have hdelta : (reuseDelta x.seedAccess a).toNat = (c.run pre).openAccesses
      (.hit k (.bp t regs' env') :: post) - 1 := by
    unfold Clocked.openAccesses
    rw [← c.run_append]
    generalize (c.run (pre ++ .hit k (.bp t regs' env') :: post)).counter = n at hhit hle hmono
    generalize (c.run pre).counter = m at hseed hmono
    have hn : a.toNat = n := by
      rw [hhit, BitVec.toNat_ofNat, Nat.mod_eq_of_lt (by omega)]
    have hm : x.seedAccess.toNat = m := by
      rw [hseed, BitVec.toNat_ofNat, Nat.mod_eq_of_lt (by omega)]
    rw [reuseDelta_toNat, hn, hm]
  refine ⟨hdelta, ?_⟩
  intro hopen
  have hopen' : ∀ e ∈ ClockEvent.hit k (.bp t regs' env') :: post, e ≠ .window false := by
    simpa using hopen
  have hcount := (c.run pre).openAccesses_eq horigin.running hopen'
  rw [hdelta, hcount, List.countP_cons_of_neg Bool.false_ne_true]

/-- A load is sampled in the first window and used again in the second one, with an access in the
gap. -/
def gapRun : List ClockEvent :=
  [.window true, .hit 0 (.bp 0 (some smallRegs) (smallHitEnv 0)),
    .hit 0 (.wp 0 (some smallRegs) (smallHitEnv 0)), .access, .window false, .access,
    .window true]

def gapStart : Clocked := ⟨preparedSession 0, 0⟩

theorem gapRun_timed :
    gapStart.Timed 0 (gapRun ++ [.hit 0 (.wp 0 (some smallRegs) (smallHitEnv 1))]) := by
  simp only [gapRun, List.cons_append, List.nil_append, Clocked.timed_cons]
  refine ⟨trivial, ?_, ?_, trivial, trivial, trivial, trivial, ?_, Clocked.timed_nil⟩
  all_goals
    rintro - a ha
    obtain rfl := Option.some.inj ha
    rfl

theorem gapStart_reachable : gapStart.session.Reachable := ⟨1, smallSetup 0, rfl⟩

theorem gapStart_idle (x : Cell) (h : gapStart.cell 0 0 = some x) : x.state = .idle := by
  obtain rfl := Option.some.inj h
  rfl

theorem gapRun_recorded : ∃ th x, (gapStart.run gapRun).session.threads[0]? = some th ∧
    th.meter.recorded (gapStart.run gapRun).session.meterCtl 0 (smallHitEnv 1) = some (x, 1) :=
  ⟨_, _, rfl, rfl⟩

theorem pair_counts_open_accesses_gapRun : ∃ (x : Cell) (pre : List ClockEvent) (t : ℕ)
    (regs : Option PtRegs) (env : HitEnv) (post : List ClockEvent) (th th' : Thread) (slot : Slot)
    (reuseContextId : ℕ), gapRun = pre ++ .hit 0 (.bp t regs env) :: post ∧
      Origin gapStart 0 0 x pre t regs env post ∧ Filed th th' slot smallRegs.pc reuseContextId
        (reuseDelta x.seedAccess 1) := by
  obtain ⟨th, x, hth, hrec⟩ := gapRun_recorded
  obtain ⟨pre, t, regs, env, post, hsplit, horigin, -, ⟨th', slot, n, -, -, -, hfiled⟩, -⟩ :=
    pair_counts_open_accesses gapStart gapStart_reachable 0 0 gapStart_idle gapRun (some smallRegs)
      (smallHitEnv 1) gapRun_timed th hth x 1 hrec
  exact ⟨x, pre, t, regs, env, post, th, th', slot, n, hsplit, horigin, hfiled⟩

/-- In every way to cut `gapRun` at a breakpoint hit, the window closes after the cut. -/
theorem gapRun_stop {pre post : List ClockEvent} {t : ℕ} {regs : Option PtRegs} {env : HitEnv}
    (h : gapRun = pre ++ .hit 0 (.bp t regs env) :: post) : .window false ∈ post := by
  simp only [gapRun, List.cons_eq_append_iff, List.cons.injEq, reduceCtorEq, false_and, and_false,
    false_or, or_false, exists_false, ClockEvent.hit.injEq, Hit.bp.injEq, List.nil_eq_append_iff]
    at h
  obtain ⟨-, -, -, -, rfl⟩ := h
  simp

/-- Pairs can straddle a stopped window. -/
theorem pair_straddles_stop : ¬ ∀ (c : Clocked), c.session.Reachable → ∀ (k i : ℕ),
    (∀ x, c.cell k i = some x → x.state = .idle) → ∀ (es : List ClockEvent)
      (regs : Option PtRegs) (env : HitEnv), c.Timed k (es ++ [.hit k (.wp i regs env)]) →
        ∀ th, (c.run es).session.threads[k]? = some th → ∀ (x : Cell) (a : U64),
          th.meter.recorded (c.run es).session.meterCtl i env = some (x, a) →
            ∀ pre t regs' env' post, es = pre ++ .hit k (.bp t regs' env') :: post →
              Origin c k i x pre t regs' env' post → .window false ∉ post := by
  intro hall
  obtain ⟨th, x, hth, hrec⟩ := gapRun_recorded
  obtain ⟨hcell, harmed, -, -⟩ := Clocked.recorded_cell hth hrec
  obtain ⟨pre, t, regs, env, post, hsplit, horigin⟩ :=
    exists_origin gapStart_reachable gapStart_idle gapRun hcell harmed
  exact hall gapStart gapStart_reachable 0 0 gapStart_idle gapRun (some smallRegs) (smallHitEnv 1)
    gapRun_timed th hth x 1 hrec pre t regs env post hsplit horigin (gapRun_stop hsplit)

end RdSpeTool
