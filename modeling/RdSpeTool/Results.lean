import RdSpeTool.Reservoir
import RdSpeTool.Tables

/-!
# Mass and refinement of the result tables

One recorded reuse adds one to a cell of the target histogram, to a bucket of one pair entry or to
the drop count of the pair table, and in DWARF mode to the stored or the dropped events. While no
pair was dropped, the pair table refines the target histogram.
-/

namespace RdSpeTool

open ProbeTable

/-- Histogram index of a target and a bucket. -/
theorem bucketIndex_lt {t n b : ℕ} (ht : t < n) (hb : b < log2Buckets) :
    t * log2Buckets + b < n * log2Buckets := by
  unfold log2Buckets at *
  omega

theorem bucketIndex_inj {t t' b b' : ℕ} (hb : b < log2Buckets) (hb' : b' < log2Buckets)
    (h : t * log2Buckets + b = t' * log2Buckets + b') : t = t' ∧ b = b' := by
  unfold log2Buckets at *
  omega

namespace Meter

variable (k : MeterCtl) (m : Meter)

theorem retire_results (i : ℕ) (idleAddr : U64) (idleRet : ℤ) :
    (m.retire k i idleAddr idleRet).log2Hist = m.log2Hist ∧
      (m.retire k i idleAddr idleRet).hits = m.hits := by
  unfold retire move clearCell
  dsimp only
  split_ifs <;> exact ⟨rfl, rfl⟩

theorem seeded_results (i : ℕ) (target : Target) (t : ℕ) (seedVa seedAccess : U64) (env : HitEnv) :
    (m.seeded k i target t seedVa seedAccess env).log2Hist = m.log2Hist ∧
      (m.seeded k i target t seedVa seedAccess env).hits = m.hits := by
  unfold seeded
  split_ifs <;> exact ⟨rfl, rfl⟩

variable {k m}

theorem bpHit_results (hm : m.Sized k) (t : ℕ) (regs : Option PtRegs) (env : HitEnv) :
    (m.bpHit k t regs env).log2Hist = m.log2Hist ∧ (m.bpHit k t regs env).hits = m.hits := by
  by_cases hadm : ∃ r target a, m.Admits k t regs env r target a
  · obtain ⟨r, target, a, hadm⟩ := hadm
    rcases bpHit_cases hm hadm with ⟨i, x, -, -, he⟩ | ⟨-, cells, rng, -, ⟨i, -, he⟩ | he⟩
    · rw [he]
      exact seeded_results k _ i target t _ a env
    · rw [he]
      exact seeded_results k _ i target t _ a env
    · rw [he]
      exact ⟨rfl, rfl⟩
  · rw [bpHit_of_not_admits (by simpa using hadm)]
    exact ⟨rfl, rfl⟩

/-- A recorded cell was armed, in range, and its report counted after the first one. -/
theorem recorded_eq_some {i : ℕ} {env : HitEnv} {x : Cell} {a : U64}
    (h : m.recorded k i env = some (x, a)) :
    (m.active = true ∧ k.running = true ∧ i < k.wpCapacity) ∧ m.cells[i]? = some x ∧
      x.state = .armed ∧ x.skipFirstHit = false ∧ x.targetIndex < k.targets.length ∧
      m.read env.memAccess = some a := by
  unfold recorded at h
  by_cases hoff : m.active = false ∨ k.running = false ∨ i ≥ k.wpCapacity
  · rw [if_pos hoff] at h
    cases h
  rw [if_neg hoff] at h
  simp only [not_or, Bool.not_eq_false, not_le, ge_iff_le] at hoff
  cases hx : m.cells[i]? with
  | none =>
      rw [hx] at h
      cases h
  | some y =>
      rw [hx] at h
      dsimp only at h
      split_ifs at h with hidle hskip htarget
      obtain ⟨b, hb, he⟩ := Option.map_eq_some_iff.mp h
      obtain ⟨rfl, rfl⟩ := Prod.mk.inj he
      exact ⟨hoff, rfl, not_not.mp hidle, by simpa using hskip, by omega, hb⟩

theorem wpHit_results (i : ℕ) (env : HitEnv) :
    (m.recorded k i env = none ∧ (m.wpHit k i env).log2Hist = m.log2Hist ∧
      (m.wpHit k i env).hits = m.hits) ∨
    ∃ x a, m.recorded k i env = some (x, a) ∧ (m.wpHit k i env).log2Hist =
        m.log2Hist.modify (x.targetIndex * log2Buckets +
          rdLog2Bucket (reuseDelta x.seedAccess a)) (· + 1) ∧
      (m.wpHit k i env).hits = m.hits + 1 := by
  unfold wpHit recorded
  by_cases hoff : m.active = false ∨ k.running = false ∨ i ≥ k.wpCapacity
  · rw [if_pos hoff, if_pos hoff]
    exact Or.inl ⟨rfl, rfl, rfl⟩
  rw [if_neg hoff, if_neg hoff]
  cases m.cells[i]? with
  | none => exact Or.inl ⟨rfl, rfl, rfl⟩
  | some x =>
      dsimp only
      by_cases hidle : x.state ≠ .armed
      · rw [if_pos hidle, if_pos hidle]
        exact Or.inl ⟨rfl, rfl, rfl⟩
      rw [if_neg hidle, if_neg hidle]
      by_cases hskip : x.skipFirstHit = true
      · rw [if_pos hskip, if_pos hskip]
        exact Or.inl ⟨rfl, rfl, rfl⟩
      rw [if_neg hskip, if_neg hskip]
      by_cases htarget : x.targetIndex ≥ k.targets.length
      · rw [if_pos htarget, if_pos htarget]
        exact Or.inl ⟨rfl, retire_results k m.addDropped i x.idleAddr env.idleRet⟩
      rw [if_neg htarget, if_neg htarget]
      cases m.read env.memAccess with
      | none => exact Or.inl ⟨rfl, retire_results k m.addDropped i x.idleAddr env.idleRet⟩
      | some a =>
          refine Or.inr ⟨x, a, rfl, ?_⟩
          dsimp only
          rw [(retire_results k _ i x.idleAddr env.idleRet).1,
            (retire_results k _ i x.idleAddr env.idleRet).2]
          have hcond : x.targetIndex < k.targets.length ∧ x.targetIndex * log2Buckets +
              rdLog2Bucket (reuseDelta x.seedAccess a) < k.targets.length * log2Buckets :=
            ⟨by omega, bucketIndex_lt (by omega) (rdLog2Bucket_lt _)⟩
          unfold addBucket
          dsimp only
          rw [if_pos hcond]
          exact ⟨rfl, rfl⟩

end Meter

/-! ## The pair table -/

namespace PairHistEntry

/-- What an entry adds to bucket `b` of the target at `offset`. -/
def weight (offset : U64) (b : ℕ) (e : PairHistEntry) : ℕ :=
  if e.seedPcOffset = offset then e.buckets[b]?.getD 0 else 0

def total (e : PairHistEntry) : ℕ := e.buckets.sum

theorem total_bump {e : PairHistEntry} {bucket : ℕ} (h : bucket < e.buckets.length) :
    (e.bump bucket).total = e.total + 1 :=
  sum_modify_succ h

theorem weight_bump {e : PairHistEntry} {bucket : ℕ} (h : bucket < e.buckets.length) (offset : U64)
    (b : ℕ) : (e.bump bucket).weight offset b =
      e.weight offset b + if e.seedPcOffset = offset ∧ bucket = b then 1 else 0 := by
  by_cases ho : e.seedPcOffset = offset
  · by_cases hb : bucket = b
    · subst hb
      simp [weight, bump, ho, List.getElem?_eq_getElem h]
    · simp [weight, bump, ho, hb]
  · simp [weight, bump, ho]

theorem total_blank {e : PairHistEntry} (h : e.buckets = List.replicate log2Buckets 0) :
    e.total = 0 := by
  simp [total, h]

theorem weight_blank {e : PairHistEntry} (h : e.buckets = List.replicate log2Buckets 0)
    (offset : U64) (b : ℕ) : e.weight offset b = 0 := by
  unfold weight
  rw [h, List.getElem?_replicate]
  split_ifs <;> rfl

/-- Claiming a blank entry is bumping it under its new key. -/
theorem claim_blank {e : PairHistEntry} (h : e.buckets = List.replicate log2Buckets 0)
    (key : PairKey) {bucket : ℕ} (hb : bucket < log2Buckets) : e.claim key bucket =
      PairHistEntry.bump bucket ⟨true, key.seedContextId, key.reuseContextId, key.seedPcOffset,
        key.reusePc, List.replicate log2Buckets 0⟩ := by
  simp only [claim, bump, h]
  congr 1
  apply List.ext_getElem?
  intro j
  rw [List.getElem?_set, List.getElem?_modify, List.getElem?_replicate]
  by_cases hj : bucket = j
  · subst hj
    simp [hb]
  · simp [hj]

end PairHistEntry

/-- The table form of the pair entries: used ones first, free ones blank. -/
structure PairTable (l : List PairHistEntry) (n : ℕ) : Prop where
  filled : Filled PairHistEntry.used PairHistEntry.key l n
  blank : ∀ e ∈ l, e.used = false → e.buckets = List.replicate log2Buckets 0
  width : ∀ e ∈ l, e.buckets.length = log2Buckets

/-- One pair is dropped and the table stays, or exactly its bucket grows by one. -/
theorem addPair_cases {t : Tables} (h : PairTable t.pairHist t.pairHistUsed) (key : PairKey)
    {bucket : ℕ} (hb : bucket < log2Buckets) :
    (t.addPair key bucket = { t with pairHistDropped := t.pairHistDropped + 1 }) ∨
    ∃ i e g n, t.pairHist[i]? = some e ∧ PairTable (t.pairHist.modify i g) n ∧
      t.addPair key bucket = { t with pairHist := t.pairHist.modify i g, pairHistUsed := n } ∧
      (g e).total = e.total + 1 ∧ ∀ offset b, (g e).weight offset b =
        e.weight offset b + if key.seedPcOffset = offset ∧ bucket = b then 1 else 0 := by
  unfold Tables.addPair
  by_cases hzero : key.reusePc = 0 ∨ bucket ≥ log2Buckets
  · rw [if_pos hzero]
    exact Or.inl rfl
  rw [if_neg hzero]
  cases hp : probe PairHistEntry.used (fun e => e.key == key) t.pairHist 0 none with
  | full => exact Or.inl rfl
  | found i =>
      right
      obtain ⟨j, e, hj, he, hused, hkey⟩ := probe_found hp
      obtain rfl : i = j := by omega
      have hek : e.key = key := by simpa using hkey
      have hwidth : bucket < e.buckets.length := by
        rw [h.width e (List.mem_of_getElem? he)]
        exact hb
      refine ⟨i, e, PairHistEntry.bump bucket, t.pairHistUsed, he, ⟨?_, ?_, ?_⟩, rfl,
        PairHistEntry.total_bump hwidth, ?_⟩
      · exact h.filled.modify_same (PairHistEntry.bump bucket) (fun _ => rfl) (fun _ => rfl)
      · intro a ha hu
        obtain ⟨m, hm⟩ := List.mem_iff_getElem?.mp ha
        obtain ⟨a', ha', ⟨rfl, rfl⟩ | ⟨-, rfl⟩⟩ := getElem?_modify_cases hm
        · obtain rfl : e = a' := Option.some.inj (he.symm.trans ha')
          rw [show (e.bump bucket).used = e.used from rfl, hused] at hu
          cases hu
        · exact h.blank a (List.mem_of_getElem? ha') hu
      · intro a ha
        obtain ⟨m, hm⟩ := List.mem_iff_getElem?.mp ha
        obtain ⟨a', ha', ⟨-, rfl⟩ | ⟨-, rfl⟩⟩ := getElem?_modify_cases hm
        · exact (List.length_modify ..).trans (h.width a' (List.mem_of_getElem? ha'))
        · exact h.width a (List.mem_of_getElem? ha')
      · intro offset b
        rw [PairHistEntry.weight_bump hwidth, ← hek]
        rfl
  | free i =>
      right
      obtain ⟨j, e, hj, he, hfree, -⟩ := probe_free hp
      obtain rfl : i = j := by omega
      have hblank := h.blank e (List.mem_of_getElem? he) hfree
      have hclaim := PairHistEntry.claim_blank hblank key hb
      have hwidth : bucket < (List.replicate log2Buckets 0).length := by simpa using hb
      refine ⟨i, e, PairHistEntry.claim key bucket, t.pairHistUsed + 1, he, ⟨?_, ?_, ?_⟩, rfl,
        ?_, ?_⟩
      · refine h.filled.insert hp (PairHistEntry.claim key bucket) (fun _ => rfl) ?_
        intro a b _ hab
        have hkb : key = b.key := hab
        simp [← hkb]
      · intro a ha hu
        obtain ⟨m, hm⟩ := List.mem_iff_getElem?.mp ha
        obtain ⟨a', ha', ⟨-, rfl⟩ | ⟨-, rfl⟩⟩ := getElem?_modify_cases hm
        · cases hu
        · exact h.blank a (List.mem_of_getElem? ha') hu
      · intro a ha
        obtain ⟨m, hm⟩ := List.mem_iff_getElem?.mp ha
        obtain ⟨a', ha', ⟨-, rfl⟩ | ⟨-, rfl⟩⟩ := getElem?_modify_cases hm
        · exact (List.length_set ..).trans (h.width a' (List.mem_of_getElem? ha'))
        · exact h.width a (List.mem_of_getElem? ha')
      · rw [hclaim, PairHistEntry.total_bump hwidth, PairHistEntry.total_blank hblank,
          PairHistEntry.total_blank rfl]
      · intro offset b
        rw [hclaim, PairHistEntry.weight_bump hwidth, PairHistEntry.weight_blank hblank,
          PairHistEntry.weight_blank rfl]

/-- Sum of bucket `b` over the entries whose seed lies at `offset`. -/
def column (offset : U64) (b : ℕ) (l : List PairHistEntry) : ℕ :=
  (l.map (PairHistEntry.weight offset b)).sum

def mass (l : List PairHistEntry) : ℕ := (l.map PairHistEntry.total).sum

structure ResultsOk (c : SessionCtl) (th : Thread) : Prop where
  hist_sum : th.log2Hist.sum = th.hits
  pairs : PairTable th.pairHist th.pairHistUsed
  pair_sum : mass th.pairHist + th.pairHistDropped = th.hits
  refines : (c.targets.map Target.pcOffset).Nodup → th.pairHistDropped = 0 →
    ∀ t target b, c.targets[t]? = some target → b < log2Buckets →
      th.log2Hist[t * log2Buckets + b]? = some (column target.pcOffset b th.pairHist)
  seeds : ∀ s ∈ th.slots, s.state = .armed →
    ∃ target, c.targets[s.targetIndex]? = some target ∧ s.seedPcOffset = target.pcOffset
  event_count : c.callchainMode = .dwarf → th.dwarfEventUsed + th.dwarfEventDropped = th.hits
  event_fit : th.dwarfEventUsed ≤ c.dwarfEventCapacity
  events : ∀ es, th.dwarfEvents = some es → ∀ n e, es[n]? = some e →
    (e.used = true ↔ n < th.dwarfEventUsed) ∧ (e.used = true → e.Stored n)

theorem nodup_pcOffset {targets : List Target} (h : (targets.map Target.pcOffset).Nodup) {t t' : ℕ}
    {target target' : Target} (ht : targets[t]? = some target) (ht' : targets[t']? = some target')
    (he : target.pcOffset = target'.pcOffset) : t = t' := by
  have hlt : t < (targets.map Target.pcOffset).length := by
    simpa using (List.getElem?_eq_some_iff.mp ht).1
  refine (List.getElem?_inj hlt h).mp ?_
  rw [List.getElem?_map, List.getElem?_map, ht, ht', Option.map_some, Option.map_some, he]

/-- The histogram cell and the pair bucket of one reuse grow together. -/
theorem refines_record {targets : List Target} (hnodup : (targets.map Target.pcOffset).Nodup)
    {hist : List ℕ} {l : List PairHistEntry}
    (href : ∀ t target b, targets[t]? = some target → b < log2Buckets →
      hist[t * log2Buckets + b]? = some (column target.pcOffset b l))
    {t0 bucket : ℕ} {target0 : Target} (ht0 : targets[t0]? = some target0)
    (hbucket : bucket < log2Buckets) {i : ℕ} {e : PairHistEntry}
    {g : PairHistEntry → PairHistEntry} (he : l[i]? = some e)
    (hg : ∀ offset b, (g e).weight offset b =
      e.weight offset b + if target0.pcOffset = offset ∧ bucket = b then 1 else 0)
    (t : ℕ) (target : Target) (b : ℕ) (ht : targets[t]? = some target) (hb : b < log2Buckets) :
    (hist.modify (t0 * log2Buckets + bucket) (· + 1))[t * log2Buckets + b]? =
      some (column target.pcOffset b (l.modify i g)) := by
  have hsum : column target.pcOffset b (l.modify i g) + e.weight target.pcOffset b =
      column target.pcOffset b l + (g e).weight target.pcOffset b :=
    sum_map_modify g (PairHistEntry.weight target.pcOffset b) he
  rw [hg] at hsum
  rw [List.getElem?_modify, href t target b ht hb]
  by_cases hsame : t0 * log2Buckets + bucket = t * log2Buckets + b
  · obtain ⟨rfl, rfl⟩ := bucketIndex_inj hbucket hb hsame
    obtain rfl : target0 = target := Option.some.inj (ht0.symm.trans ht)
    simp only [and_self, if_true] at hsum
    simp only [if_true, Option.map_eq_map, Option.map_some]
    exact congrArg some (by omega)
  · have hno : ¬ (target0.pcOffset = target.pcOffset ∧ bucket = b) := by
      rintro ⟨ho, rfl⟩
      exact hsame (by rw [nodup_pcOffset hnodup ht0 ht ho])
    rw [if_neg hno] at hsum
    simp only [if_neg hsame, Option.map_eq_map, Option.map_some]
    exact congrArg some (by omega)

/-- The next event is stored at the next index, or counted as dropped. -/
theorem addEvent_events {c : SessionCtl} {t : Tables} {event : ℕ → DwarfEvent}
    (hstored : ∀ n, (event n).Stored n)
    (h : ∀ es, t.dwarfEvents = some es → ∀ n e, es[n]? = some e →
      (e.used = true ↔ n < t.dwarfEventUsed) ∧ (e.used = true → e.Stored n)) :
    ∀ es, (t.addEvent c event).dwarfEvents = some es → ∀ n e, es[n]? = some e →
      (e.used = true ↔ n < (t.addEvent c event).dwarfEventUsed) ∧ (e.used = true → e.Stored n) := by
  unfold Tables.addEvent
  split_ifs with hnone hfull
  · exact h
  · exact h
  · intro es hes n e he
    obtain ⟨es0, hes0, rfl⟩ := Option.map_eq_some_iff.mp hes
    rw [List.getElem?_set] at he
    by_cases hn : t.dwarfEventUsed = n
    · subst hn
      simp only [if_true] at he
      split_ifs at he
      obtain rfl := Option.some.inj he
      exact ⟨by simp [(hstored t.dwarfEventUsed).used], fun _ => hstored _⟩
    · rw [if_neg hn] at he
      obtain ⟨hu, hst⟩ := h es0 hes0 n e he
      refine ⟨?_, hst⟩
      rw [hu]
      change n < t.dwarfEventUsed ↔ n < t.dwarfEventUsed + 1
      omega

theorem addEvent_fit {c : SessionCtl} {t : Tables} (event : ℕ → DwarfEvent)
    (h : t.dwarfEventUsed ≤ c.dwarfEventCapacity) :
    (t.addEvent c event).dwarfEventUsed ≤ c.dwarfEventCapacity := by
  unfold Tables.addEvent
  split_ifs with hnone hfull
  · exact h
  · exact h
  · change t.dwarfEventUsed + 1 ≤ c.dwarfEventCapacity
    omega

theorem addEvent_count {c : SessionCtl} {t : Tables} (event : ℕ → DwarfEvent)
    (hmode : c.callchainMode = .dwarf) (hcap : 0 < c.dwarfEventCapacity)
    (hsize : t.dwarfEvents.map List.length =
      if c.callchainMode = .dwarf then some c.dwarfEventCapacity else none) :
    (t.addEvent c event).dwarfEventUsed + (t.addEvent c event).dwarfEventDropped =
      t.dwarfEventUsed + t.dwarfEventDropped + 1 := by
  have hno : ¬ (c.callchainMode ≠ .dwarf ∨ t.dwarfEvents = none ∨ c.dwarfEventCapacity = 0) := by
    rintro (hm | hn | hz)
    · exact hm hmode
    · rw [hn, if_pos hmode] at hsize
      cases hsize
    · omega
  unfold Tables.addEvent
  rw [if_neg hno]
  split_ifs
  · rfl
  · change t.dwarfEventUsed + 1 + t.dwarfEventDropped = _
    omega

namespace ResultsOk

variable {c : SessionCtl} {th : Thread}

theorem armed_hit (hc : c.Ready) (hs : Shaped c th) (ha : th.active = true) (h : ResultsOk c th)
    (ht : Hit) : ∀ s ∈ (th.hit c ht).slots, s.state = .armed →
      ∃ target, c.targets[s.targetIndex]? = some target ∧ s.seedPcOffset = target.pcOffset := by
  intro s hs' harmed
  rcases hit_armed_slot (hs.sized hc ha) hs' harmed with ⟨s', hmem, harmed', hseed⟩ |
    ⟨t, regs, env, r, target, a, rfl, hadm, -, hindex, hoff⟩
  · have hindex : s.targetIndex = s'.targetIndex := congrArg Seed.targetIndex hseed
    have hoff : s.seedPcOffset = s'.seedPcOffset := congrArg Seed.seedPcOffset hseed
    rw [hindex, hoff]
    exact h.seeds s' hmem harmed'
  · rw [hindex]
    exact ⟨target, hadm.target_eq, hoff⟩

/-- A hit that records nothing leaves every table alone. -/
theorem of_quiet {th' : Thread} (h : ResultsOk c th) (htab : th'.tables = th.tables)
    (hhist : th'.log2Hist = th.log2Hist) (hhits : th'.hits = th.hits)
    (hseeds : ∀ s ∈ th'.slots, s.state = .armed →
      ∃ target, c.targets[s.targetIndex]? = some target ∧ s.seedPcOffset = target.pcOffset) :
    ResultsOk c th' := by
  rw [Tables.mk.injEq] at htab
  obtain ⟨t1, t2, t3, t4, t5, t6⟩ := htab
  refine ⟨?_, ?_, ?_, ?_, hseeds, ?_, ?_, ?_⟩
  · rw [hhist, hhits]
    exact h.hist_sum
  · rw [t1, t2]
    exact h.pairs
  · rw [t1, t3, hhits]
    exact h.pair_sum
  · rw [t1, t3, hhist]
    exact h.refines
  · rw [t5, t6, hhits]
    exact h.event_count
  · rw [t5]
    exact h.event_fit
  · rw [t4, t5]
    exact h.events

/-- A recorded reuse of target `t` in `bucket`, under a key with the target's offset. -/
theorem of_recorded {th' : Thread} (hc : c.Ready) (hs : Shaped c th) (h : ResultsOk c th) {t : ℕ}
    {target : Target} (htarget : c.targets[t]? = some target) {bucket : ℕ}
    (hb : bucket < log2Buckets) {key : PairKey} (hkey : key.seedPcOffset = target.pcOffset)
    {event : ℕ → DwarfEvent} (hstored : ∀ n, (event n).Stored n)
    (htab : th'.tables = (th.tables.addPair key bucket).addEvent c event)
    (hhist : th'.log2Hist = th.log2Hist.modify (t * log2Buckets + bucket) (· + 1))
    (hhits : th'.hits = th.hits + 1)
    (hseeds : ∀ s ∈ th'.slots, s.state = .armed →
      ∃ target, c.targets[s.targetIndex]? = some target ∧ s.seedPcOffset = target.pcOffset) :
    ResultsOk c th' := by
  have hindex : t * log2Buckets + bucket < th.log2Hist.length := by
    rw [hs.tables.1]
    exact bucketIndex_lt (List.getElem?_eq_some_iff.mp htarget).1 hb
  have hpair := addPair_cases (t := th.tables) h.pairs key hb
  obtain ⟨p1, p2, p3⟩ := (th.tables.addPair key bucket).addEvent_pairs c event
  obtain ⟨d1, d2, d3⟩ := th.tables.addPair_events key bucket
  rw [← htab] at p1 p2 p3
  refine ⟨?_, ?_, ?_, ?_, hseeds, ?_, ?_, ?_⟩
  · rw [hhist, hhits, sum_modify_succ hindex, h.hist_sum]
  · rcases hpair with he | ⟨i, e, g, n, hi, htable, he, htotal, hweight⟩
    · rw [he] at p1 p2
      exact (congrArg₂ PairTable p1 p2).mpr h.pairs
    · rw [he] at p1 p2
      exact (congrArg₂ PairTable p1 p2).mpr htable
  · have hsum := h.pair_sum
    rcases hpair with he | ⟨i, e, g, n, hi, htable, he, htotal, hweight⟩
    · rw [he] at p1 p3
      change th'.pairHist = th.pairHist at p1
      change th'.pairHistDropped = th.pairHistDropped + 1 at p3
      rw [p1, p3, hhits]
      omega
    · rw [he] at p1 p3
      change th'.pairHist = th.pairHist.modify i g at p1
      change th'.pairHistDropped = th.pairHistDropped at p3
      have hm : mass (th.pairHist.modify i g) + e.total = mass th.pairHist + (g e).total :=
        sum_map_modify g PairHistEntry.total hi
      rw [p1, p3, hhits]
      omega
  · intro hnodup hzero
    rcases hpair with he | ⟨i, e, g, n, hi, htable, he, htotal, hweight⟩
    · rw [he] at p3
      change th'.pairHistDropped = th.pairHistDropped + 1 at p3
      omega
    · rw [he] at p1 p3
      change th'.pairHist = th.pairHist.modify i g at p1
      change th'.pairHistDropped = th.pairHistDropped at p3
      rw [p1, hhist]
      refine refines_record hnodup (h.refines hnodup (p3 ▸ hzero)) htarget hb hi ?_
      rw [← hkey]
      exact hweight
  · intro hmode
    have hcount := addEvent_count (t := th.tables.addPair key bucket) event hmode
      (hc.dwarfEventCapacity_pos hmode) (by rw [d1]; exact hs.tables.2.2.2)
    rw [← htab, d2, d3, h.event_count hmode] at hcount
    rw [hhits]
    exact hcount
  · have hfit := addEvent_fit (c := c) (t := th.tables.addPair key bucket) event
      (by rw [d2]; exact h.event_fit)
    rw [← htab] at hfit
    exact hfit
  · have hev := addEvent_events (c := c) (t := th.tables.addPair key bucket) hstored
      (by rw [d1, d2]; exact h.events)
    rw [← htab] at hev
    exact hev

theorem hit (hc : c.Ready) (hs : Shaped c th) (ha : th.active = true) (h : ResultsOk c th)
    (ht : Hit) : ResultsOk c (th.hit c ht) := by
  have hseeds := h.armed_hit hc hs ha ht
  cases ht with
  | bp t regs env =>
      have hres := Meter.bpHit_results (hs.sized hc ha) t regs env
      rw [← meter_rdHandleBpHit] at hres
      exact h.of_quiet (tables_rdHandleBpHit c th t regs env) hres.1 hres.2 hseeds
  | wp i regs env =>
      have hres := Meter.wpHit_results (k := c.meterCtl) (m := th.meter) i env
      rw [← meter_rdHandleWpHit c th i regs env] at hres
      rcases tables_rdHandleWpHit c th i regs env with ⟨hnone, htab⟩ |
        ⟨slot, a, ctx, event, hslot, hrec, -, hevent, htab⟩
      · rcases hres with ⟨-, hhist, hhits⟩ | ⟨x, a, hsome, -⟩
        · exact h.of_quiet htab hhist hhits hseeds
        · rw [hnone] at hsome
          cases hsome
      · rcases hres with ⟨hnone, -⟩ | ⟨x, a', hsome, hhist, hhits⟩
        · rw [hrec] at hnone
          cases hnone
        obtain ⟨rfl, rfl⟩ := Prod.mk.inj (Option.some.inj (hrec.symm.trans hsome))
        obtain ⟨-, -, harmed, -⟩ := Meter.recorded_eq_some hrec
        obtain ⟨target, htarget, hoff⟩ := h.seeds slot (List.mem_of_getElem? hslot) harmed
        have hstored : ∀ n, (event n).Stored n := by
          intro n
          rw [hevent n]
          exact dwarfEventOf_stored _ slot i n _ a
        exact h.of_recorded hc hs htarget (rdLog2Bucket_lt _) hoff hstored htab hhist hhits hseeds

/-- All tables empty and no seed armed. -/
theorem of_empty (hhist : th.log2Hist = List.replicate th.log2Hist.length 0)
    (hlen : th.log2Hist.length = c.targetCount * log2Buckets) (hhits : th.hits = 0)
    (hpairs : th.pairHist = List.replicate th.pairHist.length .zero) (hused : th.pairHistUsed = 0)
    (hdropped : th.pairHistDropped = 0) (hidle : ∀ s ∈ th.slots, s.state = .idle)
    (hevents : ∀ es, th.dwarfEvents = some es → ∀ e ∈ es, e.used = false)
    (heu : th.dwarfEventUsed = 0) (hed : th.dwarfEventDropped = 0) : ResultsOk c th := by
  refine ⟨?_, ?_, ?_, ?_, ?_, ?_, ?_, ?_⟩
  · rw [hhist, hhits]
    simp
  · rw [hpairs, hused]
    refine ⟨Filled.replicate _ _ rfl, ?_, ?_⟩
    · intro e he _
      rw [List.eq_of_mem_replicate he]
      rfl
    · intro e he
      rw [List.eq_of_mem_replicate he]
      simp [PairHistEntry.zero]
  · rw [hpairs, hdropped, hhits, mass, List.map_replicate,
      PairHistEntry.total_blank (e := .zero) rfl]
    simp
  · intro _ _ t target b htarget hb
    have hlt := bucketIndex_lt (List.getElem?_eq_some_iff.mp htarget).1 hb
    have hcol : column target.pcOffset b th.pairHist = 0 := by
      rw [hpairs, column, List.map_replicate, PairHistEntry.weight_blank (e := .zero) rfl]
      simp
    rw [hcol, hhist, List.getElem?_replicate, if_pos (hlen.symm ▸ hlt)]
  · intro s hs harmed
    rw [hidle s hs] at harmed
    cases harmed
  · intro _
    rw [heu, hed, hhits]
  · rw [heu]
    exact Nat.zero_le _
  · intro es hes n e he
    have hf := hevents es hes e (List.mem_of_getElem? he)
    simp [hf, heu]

theorem newThread (c : SessionCtl) (arg : ThreadRegister) : ResultsOk c (newThread c arg) := by
  rw [newThread_eq]
  refine of_empty ?_ ?_ rfl ?_ rfl rfl ?_ ?_ rfl rfl
  · simp [setupThread, Thread.setEvents]
  · simp [setupThread, Thread.setEvents]
  · simp [setupThread, Thread.setEvents]
  · intro s hs
    obtain ⟨s', hs', rfl⟩ := List.mem_map.mp hs
    obtain ⟨i, -, rfl⟩ := List.mem_map.mp hs'
    rfl
  · intro es hes e he
    simp only [setupThread, Thread.setEvents] at hes
    split_ifs at hes
    rw [← Option.some.inj hes] at he
    rw [List.eq_of_mem_replicate he]
    rfl

theorem wipe {p : Thread} (hlen : p.log2Hist.length = c.targetCount * log2Buckets) :
    ResultsOk c p.wipe := by
  refine of_empty ?_ ?_ rfl ?_ rfl rfl ?_ ?_ rfl rfl
  · simp [Thread.wipe]
  · simpa [Thread.wipe] using hlen
  · simp [Thread.wipe]
  · intro s hs
    obtain ⟨s', -, rfl⟩ := List.mem_map.mp hs
    rfl
  · intro es hes e he
    obtain ⟨es', -, rfl⟩ := Option.map_eq_some_iff.mp hes
    obtain ⟨e', -, rfl⟩ := List.mem_map.mp he
    rfl

theorem step {c' : SessionCtl} {th' : Thread} (hc : c.Ready) (hs : Shaped c th)
    (h : ResultsOk c th) (hstep : ThreadStep c th c' th') : ResultsOk c' th' := by
  cases hstep with
  | same => exact h
  | hit ht ha => exact h.hit hc hs ha ht
  | window b =>
      have hkeep : ∀ th' : Thread, th'.tables = th.tables → th'.log2Hist = th.log2Hist →
          th'.hits = th.hits → (∀ s ∈ th'.slots, s.state = .armed → ∃ target,
            c.targets[s.targetIndex]? = some target ∧ s.seedPcOffset = target.pcOffset) →
          ResultsOk (c.withRunning b) th' := by
        intro th' h1 h2 h3 h4
        have hq := h.of_quiet h1 h2 h3 h4
        exact ⟨hq.hist_sum, hq.pairs, hq.pair_sum, hq.refines, hq.seeds, hq.event_count,
          hq.event_fit, hq.events⟩
      unfold Thread.window
      split_ifs
      · refine hkeep _ rfl rfl rfl ?_
        intro s hs' harmed
        obtain ⟨s', hs'', rfl⟩ := List.mem_map.mp hs'
        exact h.seeds s' hs'' harmed
      · exact hkeep _ rfl rfl rfl h.seeds
  | reset hr mods =>
      obtain ⟨p, hp, hf, -⟩ := hs.reset_parked mods
      rw [hp]
      exact wipe ((congrArg Frame.log2Hist hf).trans hs.tables.1)
  | detach ha =>
      unfold rdThreadDetachLive
      rw [hs.liveDetached ha]
      refine h.of_quiet rfl rfl rfl ?_
      intro s hs'
      simp at hs'

end ResultsOk

/-- Sum over the used entries of a pair table whose free entries are blank. -/
theorem sum_filter_used {l : List PairHistEntry}
    (hblank : ∀ e ∈ l, e.used = false → e.buckets = List.replicate log2Buckets 0)
    (f : PairHistEntry → ℕ) (hf : ∀ e, e.buckets = List.replicate log2Buckets 0 → f e = 0) :
    ((l.filter PairHistEntry.used).map f).sum = (l.map f).sum := by
  induction l with
  | nil => rfl
  | cons e l ih =>
      have hl := ih fun a ha => hblank a (List.mem_cons_of_mem e ha)
      cases hu : e.used with
      | true => simp only [List.filter_cons, hu, if_true, List.map_cons, List.sum_cons, hl]
      | false =>
          have h0 := hf e (hblank e List.mem_cons_self hu)
          simp only [List.filter_cons, hu, Bool.false_eq_true, if_false, List.map_cons,
            List.sum_cons, hl, h0, Nat.zero_add]

theorem column_eq {l : List PairHistEntry}
    (hblank : ∀ e ∈ l, e.used = false → e.buckets = List.replicate log2Buckets 0) (offset : U64)
    (b : ℕ) : column offset b l = ((l.filter fun e => e.used ∧ e.seedPcOffset = offset).map
      fun e => e.buckets[b]?.getD 0).sum := by
  unfold column
  rw [← sum_filter_used hblank _ fun e he => PairHistEntry.weight_blank he offset b]
  induction l with
  | nil => rfl
  | cons e l ih =>
      have hl := ih fun a ha => hblank a (List.mem_cons_of_mem e ha)
      cases hu : e.used with
      | false => simpa [List.filter_cons, hu] using hl
      | true =>
          by_cases ho : e.seedPcOffset = offset
          · simpa [List.filter_cons, hu, ho, PairHistEntry.weight] using hl
          · simpa [List.filter_cons, hu, ho, PairHistEntry.weight] using hl

theorem Session.Reachable.resultsOk {s : Session} (h : s.Reachable) {th : Thread}
    (hth : th ∈ s.threads) : ResultsOk s.toSessionCtl th :=
  h.shaped_induction (I := ResultsOk) (fun c arg _ => ResultsOk.newThread c arg)
    (fun _ _ _ _ hc hs hi hstep => hi.step hc hs hstep) hth

/-- The result tables of every thread in every reachable session. -/
theorem histogram_mass_and_refinement (s : Session) (h : s.Reachable) (th : Thread)
    (hth : th ∈ s.threads) :
    th.log2Hist.sum = th.hits ∧
    ((th.pairHist.filter PairHistEntry.used).map fun e => e.buckets.sum).sum +
      th.pairHistDropped = th.hits ∧
    (th.pairHistUsed ≤ maxPairHists ∧
      (∀ i e, th.pairHist[i]? = some e → (e.used = true ↔ i < th.pairHistUsed)) ∧
      ∀ (i j : ℕ) (a b : PairHistEntry), th.pairHist[i]? = some a → th.pairHist[j]? = some b →
        a.used = true → b.used = true → a.key = b.key → i = j) ∧
    ((s.targets.map Target.pcOffset).Nodup → th.pairHistDropped = 0 →
      ∀ t target b, s.targets[t]? = some target → b < log2Buckets →
        th.log2Hist[t * log2Buckets + b]? = some (((th.pairHist.filter fun e =>
          e.used ∧ e.seedPcOffset = target.pcOffset).map fun e => e.buckets[b]?.getD 0).sum)) ∧
    (s.callchainMode = .dwarf →
      th.dwarfEventUsed + th.dwarfEventDropped = th.hits ∧
      ∃ es, th.dwarfEvents = some es ∧ th.dwarfEventUsed ≤ es.length ∧
        ∀ n e, es[n]? = some e → (e.used = true ↔ n < th.dwarfEventUsed) ∧
          (n < th.dwarfEventUsed → e.delta = reuseDelta e.seedAccess e.hitAccess ∧
            e.bucket = rdLog2Bucket e.delta)) := by
  have hs := h.shaped hth
  have hok := h.resultsOk hth
  have hlen : th.pairHist.length = maxPairHists := by
    simpa using congrArg List.length hs.tables.2.1
  refine ⟨hok.hist_sum, ?_, ⟨?_, hok.pairs.filled.used_iff, hok.pairs.filled.key_inj⟩, ?_, ?_⟩
  · have hsum := sum_filter_used hok.pairs.blank PairHistEntry.total
      fun _ => PairHistEntry.total_blank
    exact (congrArg (· + th.pairHistDropped) hsum).trans hok.pair_sum
  · rw [← hlen]
    exact hok.pairs.filled.le_length
  · intro hnodup hzero t target b htarget hb
    rw [hok.refines hnodup hzero t target b htarget hb, column_eq hok.pairs.blank]
  · intro hmode
    refine ⟨hok.event_count hmode, ?_⟩
    have hsize := hs.tables.2.2.2
    rw [if_pos hmode] at hsize
    obtain ⟨es, hes, hlength⟩ := Option.map_eq_some_iff.mp hsize
    refine ⟨es, hes, ?_, ?_⟩
    · rw [hlength]
      exact hok.event_fit
    · intro n e he
      obtain ⟨hu, hst⟩ := hok.events es hes n e he
      refine ⟨hu, fun hn => ?_⟩
      have hstored := hst (hu.mpr hn)
      exact ⟨hstored.delta, hstored.bucket⟩

/-! ## The tables of a recorded hit -/

/-- The first pair of a thread takes the first entry. -/
theorem addPair_blank {t : Tables} (hpairs : t.pairHist = List.replicate maxPairHists .zero)
    {key : PairKey} (hpc : key.reusePc ≠ 0) {bucket : ℕ} (hb : bucket < log2Buckets) :
    t.addPair key bucket = { t with
      pairHist := (List.replicate maxPairHists .zero).modify 0 (PairHistEntry.claim key bucket)
      pairHistUsed := t.pairHistUsed + 1 } := by
  have hfilled : Filled PairHistEntry.used PairHistEntry.key (List.replicate maxPairHists .zero) 0 :=
    Filled.replicate _ _ rfl
  have hprobe : probe PairHistEntry.used (fun e => e.key == key)
      (List.replicate maxPairHists .zero) 0 none = .free 0 := by
    refine hfilled.probe_eq_free (by rw [List.length_replicate]; decide) fun e he hu => ?_
    rw [List.eq_of_mem_replicate he] at hu
    cases hu
  unfold Tables.addPair
  rw [if_neg (by simp only [not_or, ge_iff_le, not_le]; exact ⟨hpc, hb⟩), hpairs, hprobe]

theorem newThread_pairs (c : SessionCtl) (arg : ThreadRegister) :
    (newThread c arg).pairHist = List.replicate maxPairHists .zero ∧
      (newThread c arg).pairHistUsed = 0 ∧ (newThread c arg).pairHistDropped = 0 := by
  rw [newThread_eq]
  exact ⟨rfl, rfl, rfl⟩

def watchedThread (mode : ℕ) : Thread :=
  (reuseHits.take 2).foldl (fun th ht => th.hit (smallSession mode).toSessionCtl ht)
    (newThread (smallSession mode).toSessionCtl smallThread)

theorem hitThread_eq (mode : ℕ) : hitThread mode = (watchedThread mode).hit
    (smallSession mode).toSessionCtl (.wp 0 (some smallRegs) (numberedEnv 9)) := rfl

theorem watchedThread_reachable (mode : ℕ) (hmode : mode < 3) :
    (⟨(smallSession mode).toSessionCtl, [watchedThread mode]⟩ : Session).Reachable :=
  ⟨1, smallRun mode ++ (reuseHits.take 2).map (SessionEvent.hit 0), run_smallRun_hits mode hmode _⟩

/-- Neither the sampled load nor the report of its own access writes a result. -/
theorem watchedThread_tables (mode : ℕ) (hmode : mode < 3) : (watchedThread mode).tables =
    (newThread (smallSession mode).toSessionCtl smallThread).tables := by
  have hload := tables_rdHandleBpHit (smallSession mode).toSessionCtl
    (newThread (smallSession mode).toSessionCtl smallThread) 0 (some smallRegs) (numberedEnv 5)
  have hmeter := meter_rdHandleBpHit (smallSession mode).toSessionCtl
    (newThread (smallSession mode).toSessionCtl smallThread) 0 (some smallRegs) (numberedEnv 5)
  change (rdHandleWpHit _ (rdHandleBpHit _ _ 0 _ _) 0 _ _).tables = _
  rw [← hload]
  generalize rdHandleBpHit _ _ 0 _ _ = th at hmeter ⊢
  rcases tables_rdHandleWpHit (smallSession mode).toSessionCtl th 0 (some smallRegs) (numberedEnv 6)
    with ⟨-, h⟩ | ⟨slot, a, ctx, event, -, h, -⟩
  · exact h
  · rw [hmeter] at h
    interval_cases mode <;> cases h

theorem watchedThread_recorded (mode : ℕ) (hmode : mode < 3) :
    ((watchedThread mode).meter.recorded (smallSession mode).meterCtl 0 (numberedEnv 9)).map
      (fun p => (p.1.targetIndex, p.1.seedAccess, p.2)) = some (0, 5, 9) := by
  rw [watchedThread, meter_hits]
  interval_cases mode <;> rfl

/-- The next report files its reuse under the pair of the load and the reuse. -/
theorem watchedThread_reuse (mode : ℕ) (hmode : mode < 3) (r : PtRegs) : ∃ slot event,
    (watchedThread mode).slots[0]? = some slot ∧ slot.state = .armed ∧
    slot.seedPcOffset = 0x100 ∧
    (∀ n, (event n).used = true ∧ (event n).hitAccess = 9 ∧ (event n).delta = reuseDelta 5 9) ∧
    ((watchedThread mode).hit (smallSession mode).toSessionCtl
      (.wp 0 (some r) (numberedEnv 9))).tables =
      ((newThread (smallSession mode).toSessionCtl smallThread).tables.addPair
        ⟨0x100, slot.seedContextId, r.pc, (contextOf (smallSession mode).toSessionCtl
          (watchedThread mode) (captureChain (smallSession mode).toSessionCtl (watchedThread mode)
            numberedMem (some r)).2).2⟩
        (rdLog2Bucket (reuseDelta 5 9))).addEvent (smallSession mode).toSessionCtl event := by
  have hrec := watchedThread_recorded mode hmode
  rcases tables_rdHandleWpHit (smallSession mode).toSessionCtl (watchedThread mode) 0
    (some r) (numberedEnv 9) with ⟨hnone, -⟩ |
    ⟨slot, a, ctx, event, hslot, hsome, hctx, hevent, h⟩
  · rw [hnone] at hrec
    cases hrec
  obtain ⟨-, -, harmed, -⟩ := Meter.recorded_eq_some hsome
  rw [hsome, Option.map_some, Option.some.injEq, Prod.mk.injEq, Prod.mk.injEq] at hrec
  obtain ⟨htarget, hseed, rfl⟩ := hrec
  obtain ⟨target, ht, hoffset⟩ := ((watchedThread_reachable mode hmode).resultsOk
    (List.mem_singleton_self _)).seeds slot (List.mem_of_getElem? hslot) harmed
  have hpc : slot.seedPcOffset = 0x100 := by
    change slot.targetIndex = 0 at htarget
    rw [htarget] at ht
    rw [hoffset]
    interval_cases mode <;> exact (congrArg Target.pcOffset (Option.some.inj ht)).symm
  change slot.seedAccess = 5 at hseed
  have hshown : ∀ n, (event n).used = true ∧ (event n).hitAccess = 9 ∧
      (event n).delta = reuseDelta 5 9 := by
    intro n
    rw [hevent]
    exact ⟨rfl, rfl, congrArg (fun a => reuseDelta a 9) hseed⟩
  refine ⟨slot, event, hslot, harmed, hpc, hshown, ?_⟩
  change (rdHandleWpHit _ (watchedThread mode) 0 (some r) (numberedEnv 9)).tables = _
  rw [h, watchedThread_tables mode hmode, hpc, hseed, hctx]
  rfl

/-- The pair table holds that one pair. -/
theorem watchedThread_pairs (mode : ℕ) (hmode : mode < 3) {r : PtRegs} (hr : r.pc ≠ 0) : ∃ slot,
    (watchedThread mode).slots[0]? = some slot ∧ slot.state = .armed ∧
    slot.seedPcOffset = 0x100 ∧
    ((watchedThread mode).hit (smallSession mode).toSessionCtl
      (.wp 0 (some r) (numberedEnv 9))).pairHistDropped = 0 ∧
    ((watchedThread mode).hit (smallSession mode).toSessionCtl
      (.wp 0 (some r) (numberedEnv 9))).pairHist =
      (List.replicate maxPairHists .zero).modify 0 (PairHistEntry.claim
        ⟨0x100, slot.seedContextId, r.pc, (contextOf (smallSession mode).toSessionCtl
          (watchedThread mode) (captureChain (smallSession mode).toSessionCtl (watchedThread mode)
            numberedMem (some r)).2).2⟩ (rdLog2Bucket (reuseDelta 5 9))) := by
  obtain ⟨slot, event, hslot, harmed, hpc, -, htables⟩ := watchedThread_reuse mode hmode r
  obtain ⟨hpairs, -, hdropped⟩ := newThread_pairs (smallSession mode).toSessionCtl smallThread
  rw [addPair_blank hpairs hr (by decide)] at htables
  have hkept := congrArg Tables.pairHistDropped htables
  have hentries := congrArg Tables.pairHist htables
  rw [(Tables.addEvent_pairs ..).2.2] at hkept
  rw [(Tables.addEvent_pairs ..).1] at hentries
  exact ⟨slot, hslot, harmed, hpc, hkept.trans hdropped, hentries⟩

/-- The first event of an array of one. -/
theorem addEvent_blank {c : SessionCtl} {t : Tables} (hmode : c.callchainMode = .dwarf)
    (hcap : c.dwarfEventCapacity = 1) (hevents : t.dwarfEvents = some [.zero])
    (hused : t.dwarfEventUsed = 0) (event : ℕ → DwarfEvent) :
    (t.addEvent c event).dwarfEvents = some [event 0] ∧ (t.addEvent c event).dwarfEventUsed = 1 ∧
      (t.addEvent c event).dwarfEventDropped = t.dwarfEventDropped := by
  unfold Tables.addEvent
  rw [if_neg (by simp [hmode, hcap, hevents]), if_neg (by omega), hevents, hused]
  exact ⟨rfl, rfl, rfl⟩

theorem newThread_events {c : SessionCtl} (hmode : c.callchainMode = .dwarf) (arg : ThreadRegister) :
    (newThread c arg).dwarfEvents = some (List.replicate c.dwarfEventCapacity .zero) ∧
      (newThread c arg).dwarfEventUsed = 0 ∧ (newThread c arg).dwarfEventDropped = 0 := by
  rw [newThread_eq]
  exact ⟨if_pos hmode, rfl, rfl⟩

/-- In DWARF mode the run stores the event of its hit. -/
theorem hitThread_events : ∃ e, (hitThread 2).dwarfEvents = some [e] ∧
    (e.used = true ∧ e.hitAccess = 9 ∧ e.delta = reuseDelta 5 9) ∧
    (hitThread 2).dwarfEventUsed = 1 ∧ (hitThread 2).dwarfEventDropped = 0 := by
  have hproj : ∀ th : Thread, th.dwarfEvents = th.tables.dwarfEvents ∧
      th.dwarfEventUsed = th.tables.dwarfEventUsed ∧
      th.dwarfEventDropped = th.tables.dwarfEventDropped := fun _ => ⟨rfl, rfl, rfl⟩
  have hmode : (smallSession 2).callchainMode = .dwarf := by decide
  have hcap : (smallSession 2).dwarfEventCapacity = 1 := by decide
  obtain ⟨hevents, hused, hdropped⟩ := newThread_events hmode smallThread
  rw [hcap] at hevents
  obtain ⟨slot, event, -, -, -, hhit, htables⟩ := watchedThread_reuse 2 (by decide) smallRegs
  have hkept := Tables.addPair_events (newThread (smallSession 2).toSessionCtl smallThread).tables
    ⟨0x100, slot.seedContextId, smallRegs.pc, (contextOf (smallSession 2).toSessionCtl
      (watchedThread 2) (captureChain (smallSession 2).toSessionCtl (watchedThread 2)
        numberedMem (some smallRegs)).2).2⟩ (rdLog2Bucket (reuseDelta 5 9))
  obtain ⟨h1, h2, h3⟩ := addEvent_blank hmode hcap (hkept.1.trans hevents)
    (hkept.2.1.trans hused) event
  obtain ⟨p1, p2, p3⟩ := hproj (hitThread 2)
  rw [p1, p2, p3, hitThread_eq, htables]
  exact ⟨event 0, h1, hhit 0, h2, h3.trans (hkept.2.2.trans hdropped)⟩

/-- The recorded run has one hit, in bucket 2 of its target, and one pair that refines it. -/
theorem histogram_mass_small : (hitThread 2).hits = 1 ∧
    (hitThread 2).log2Hist.sum = 1 ∧ (hitThread 2).pairHistDropped = 0 ∧
    (hitThread 2).log2Hist[2]? = some 1 ∧
    (((hitThread 2).pairHist.filter fun e => e.used ∧ e.seedPcOffset = 0x100).map
      fun e => e.buckets[2]?.getD 0).sum = 1 ∧
    (hitThread 2).dwarfEventUsed + (hitThread 2).dwarfEventDropped = 1 := by
  have hrun := hitRun_threads 2 (by decide)
  obtain ⟨-, hhits, -⟩ := hitThread_spec 2 (by decide)
  obtain ⟨hmass, -, -, hrefine, hevents⟩ := histogram_mass_and_refinement
    ((rdWpctlOpen 1).run (hitRun 2)) ⟨1, hitRun 2, rfl⟩ (hitThread 2) (hitThread_mem 2 (by decide))
  rw [hrun] at hrefine hevents
  obtain ⟨-, -, -, -, hdropped, -⟩ := watchedThread_pairs 2 (by decide) (r := smallRegs) (by decide)
  rw [← hitThread_eq] at hdropped
  have hcell := hitThread_cell 2 (by decide)
  have hsum := hrefine (by decide) hdropped 0 loadTarget 2 rfl (by decide)
  refine ⟨hhits, hmass.trans hhits, hdropped, hcell, ?_, (hevents rfl).1.trans hhits⟩
  rw [Nat.zero_mul, Nat.zero_add, hcell] at hsum
  exact (Option.some.inj hsum).symm

end RdSpeTool
