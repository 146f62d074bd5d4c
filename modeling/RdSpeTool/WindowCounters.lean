import Mathlib.Data.BitVec
import RdSpeTool.Schedule
import RdSpeTool.Uapi

/-!
# Counters of a window

Every thread has one perf event per counter and per sampler while it is registered. A window reports
what the events of all threads counted since the last report. Counts of threads that have gone are
kept in a sum. The model holds the count of an event in the place of its file descriptor.
-/

namespace RdSpeTool

open Schedule

structure ReadFormat where
  value : U64
  timeEnabled : U64
  timeRunning : U64
  deriving DecidableEq

namespace ReadFormat

def zero : ReadFormat := ⟨0, 0, 0⟩

def add (a b : ReadFormat) : ReadFormat :=
  ⟨a.value + b.value, a.timeEnabled + b.timeEnabled, a.timeRunning + b.timeRunning⟩

def CanGrow (a d : ReadFormat) : Prop :=
  a.value.toNat + d.value.toNat < 2 ^ 64 ∧ a.timeEnabled.toNat + d.timeEnabled.toNat < 2 ^ 64 ∧
    a.timeRunning.toNat + d.timeRunning.toNat < 2 ^ 64

instance (a d : ReadFormat) : Decidable (a.CanGrow d) :=
  inferInstanceAs (Decidable (_ ∧ _ ∧ _))

end ReadFormat

structure CounterData where
  value : U64
  activeTime : ℚ
  deriving DecidableEq

structure SamplerCount where
  samplerIndex : ℕ
  count : ReadFormat
  deriving DecidableEq

structure CounterThread where
  active : Bool
  counterFds : List ReadFormat
  samplers : List SamplerCount
  deriving DecidableEq

structure CounterCfg where
  numCounters : ℕ
  numSamplers : ℕ
  nonstopMode : Bool

/-- The part of `Monitor` that counts. An absent thread is an inactive one; `reports` are the buffers
that `read_counters` filled so far. -/
structure CounterMonitor where
  tids : List ℤ
  threads : ℤ → CounterThread
  retired : ℕ → ReadFormat
  prevCounters : ℕ → U64
  eventsEnabled : Bool
  reports : List (List CounterData)

/-- `count` is the kernel's step: an open event counts on. -/
inductive CounterStep
  | registerThread (tid : ℤ)
  | unregisterThread (tid : ℤ)
  | start
  | stop
  | readCounters (includeSamplers : Bool)
  | count (tid : ℤ) (index : ℕ) (more : ReadFormat)
  deriving DecidableEq

namespace CounterThread

def closed : CounterThread := ⟨false, [], []⟩

def opened (cfg : CounterCfg) : CounterThread :=
  ⟨true, List.replicate cfg.numCounters .zero,
    (List.range cfg.numSamplers).map fun k => ⟨k, .zero⟩⟩

variable (cfg : CounterCfg) (t : CounterThread)

/-- The count that `read_counters` finds under an index, samplers after counters. -/
def countAt (i : ℕ) : Option ReadFormat :=
  if t.active = false then none
  else if i < cfg.numCounters then t.counterFds[i]?
  else (t.samplers[i - cfg.numCounters]?).map SamplerCount.count

def grow (i : ℕ) (more : ReadFormat) : CounterThread :=
  if i < cfg.numCounters then { t with counterFds := t.counterFds.modify i (·.add more) }
  else { t with samplers := t.samplers.modify (i - cfg.numCounters) fun s =>
    { s with count := s.count.add more } }

def retiring : List (ℕ × ReadFormat) :=
  ((List.range cfg.numCounters).filterMap fun i => (t.counterFds[i]?).map fun c => (i, c)) ++
    t.samplers.map fun s => (cfg.numCounters + s.samplerIndex, s.count)

end CounterThread

def addCounts (r : ℕ → ReadFormat) (l : List (ℕ × ReadFormat)) : ℕ → ReadFormat :=
  l.foldl (fun r p => Function.update r p.1 ((r p.1).add p.2)) r

namespace CounterMonitor

def initial : CounterMonitor :=
  ⟨[], fun _ => .closed, fun _ => .zero, fun _ => 0, false, []⟩

variable (cfg : CounterCfg) (m : CounterMonitor)

def currentCount (i : ℕ) : ReadFormat :=
  m.tids.foldl (fun acc tid =>
    match (m.threads tid).countAt cfg i with
    | none => acc
    | some c => acc.add c) (m.retired i)

def counterData (i : ℕ) : CounterData :=
  let c := m.currentCount cfg i
  ⟨c.value - m.prevCounters i,
    if c.timeEnabled ≠ 0 then c.timeRunning.toNat / c.timeEnabled.toNat else 0⟩

def numReported (includeSamplers : Bool) : ℕ :=
  if includeSamplers then cfg.numCounters + cfg.numSamplers else cfg.numCounters

def readCounters (includeSamplers : Bool) : CounterMonitor :=
  let n := numReported cfg includeSamplers
  { m with
      prevCounters := fun i => if i < n then (m.currentCount cfg i).value else m.prevCounters i
      reports := m.reports ++ [(List.range n).map (m.counterData cfg)] }

def registerThreadLocked (tid : ℤ) : CounterMonitor :=
  { m with
      tids := if tid ∈ m.tids then m.tids else m.tids ++ [tid]
      threads := if (m.threads tid).active then m.threads
        else Function.update m.threads tid (.opened cfg) }

def unregisterThreadLocked (tid : ℤ) : CounterMonitor :=
  if (m.threads tid).active = false then m
  else { m with
    retired := addCounts m.retired ((m.threads tid).retiring cfg)
    threads := Function.update m.threads tid .closed }

/-- Enabling decides when the kernel lets an event count; `count` may come at any time. -/
def step : CounterStep → Option CounterMonitor
  | .registerThread tid => some (m.registerThreadLocked cfg tid)
  | .unregisterThread tid => some (m.unregisterThreadLocked cfg tid)
  | .start => some { m with eventsEnabled := true }
  | .stop =>
      let m := if cfg.nonstopMode then m else { m with eventsEnabled := false }
      some (m.readCounters cfg true)
  | .readCounters includeSamplers => some (m.readCounters cfg includeSamplers)
  | .count tid i more =>
      match (m.threads tid).countAt cfg i with
      | none => none
      | some c =>
          if c.CanGrow more then
            some { m with threads := Function.update m.threads tid ((m.threads tid).grow cfg i more) }
          else none

def reportedSum (i : ℕ) : ℕ :=
  (m.reports.map fun r => ((r[i]?).map fun c => c.value.toNat).getD 0).sum

end CounterMonitor

namespace CounterStep

def counted (i : ℕ) : CounterStep → ℕ
  | .count _ j more => if j = i then more.value.toNat else 0
  | _ => 0

def reports (cfg : CounterCfg) (i : ℕ) : CounterStep → Bool
  | .stop => i < CounterMonitor.numReported cfg true
  | .readCounters includeSamplers => i < CounterMonitor.numReported cfg includeSamplers
  | _ => false

end CounterStep

/-- What all events of an index, of all threads, have counted. -/
def accumulated (i : ℕ) (steps : List CounterStep) : ℕ := (steps.map (CounterStep.counted i)).sum

/-! ## Sums over threads -/

/-- Changing one member of a list without repetition changes its sum by the difference. -/
theorem sum_map_change {α β : Type*} [DecidableEq α] [AddCommMonoid β] {l : List α} {a : α}
    (hnd : l.Nodup) (ha : a ∈ l) {f g : α → β} (hsame : ∀ b, b ≠ a → g b = f b) :
    (l.map g).sum + f a = (l.map f).sum + g a := by
  have hperm := List.perm_cons_erase ha
  have hrest : (l.erase a).map g = (l.erase a).map f := by
    apply List.map_congr_left
    intro b hb
    exact hsame b (hnd.mem_erase_iff.mp hb).1
  rw [(hperm.map g).sum_eq, (hperm.map f).sum_eq, List.map_cons, List.map_cons, List.sum_cons,
    List.sum_cons, hrest]
  abel

/-! ## One thread -/

theorem addCounts_of_notMem {i : ℕ} {l : List (ℕ × ReadFormat)} (h : i ∉ l.map Prod.fst)
    (r : ℕ → ReadFormat) : addCounts r l i = r i := by
  induction l generalizing r with
  | nil => rfl
  | cons p l ih =>
      rw [List.map_cons, List.mem_cons, not_or] at h
      change addCounts (Function.update r p.1 _) l i = r i
      rw [ih h.2, Function.update_of_ne h.1]

/-- Counts with different indices do not meet. -/
theorem addCounts_of_mem {i : ℕ} {c : ReadFormat} {l : List (ℕ × ReadFormat)}
    (hnd : (l.map Prod.fst).Nodup) (h : (i, c) ∈ l) (r : ℕ → ReadFormat) :
    addCounts r l i = (r i).add c := by
  induction l generalizing r with
  | nil => cases h
  | cons p l ih =>
      rw [List.map_cons, List.nodup_cons] at hnd
      change addCounts (Function.update r p.1 ((r p.1).add p.2)) l i = (r i).add c
      rcases List.mem_cons.mp h with rfl | hmem
      · rw [addCounts_of_notMem hnd.1, Function.update_self]
      · have hne : i ≠ p.1 := by
          rintro rfl
          exact hnd.1 (List.mem_map.mpr ⟨_, hmem, rfl⟩)
        rw [ih hnd.2 hmem, Function.update_of_ne hne]

namespace CounterThread

variable {cfg : CounterCfg} {t : CounterThread} {i : ℕ}

def valueAt (cfg : CounterCfg) (t : CounterThread) (i : ℕ) : U64 :=
  ((t.countAt cfg i).map ReadFormat.value).getD 0

structure Shaped (cfg : CounterCfg) (t : CounterThread) : Prop where
  counters : t.counterFds.length = cfg.numCounters
  samplers : t.samplers.map SamplerCount.samplerIndex = List.range cfg.numSamplers

theorem shaped_opened : Shaped cfg (opened cfg) := by
  constructor
  · simp [opened]
  · simp [opened, Function.comp_def]

theorem valueAt_opened : (opened cfg).valueAt cfg i = 0 := by
  unfold valueAt countAt opened
  simp only [Bool.true_eq_false, if_false]
  split_ifs with hi
  · rw [List.getElem?_replicate]
    split_ifs
    rfl
  · rw [List.getElem?_map, Option.map_map, Option.map_map]
    cases (List.range cfg.numSamplers)[i - cfg.numCounters]? with
    | none => rfl
    | some k => rfl

theorem valueAt_of_inactive (h : t.active = false) : t.valueAt cfg i = 0 := by
  unfold valueAt countAt
  rw [if_pos h]
  rfl

/-- Each index of the sum gets at most one count. -/
theorem retiring_indices (h : t.Shaped cfg) :
    (t.retiring cfg).map Prod.fst = List.range (cfg.numCounters + cfg.numSamplers) := by
  have hcounters : ((List.range cfg.numCounters).filterMap fun i =>
      (t.counterFds[i]?).map fun c => (i, c)).map Prod.fst = List.range cfg.numCounters := by
    rw [List.map_filterMap]
    calc _ = (List.range cfg.numCounters).filterMap some := by
          apply List.filterMap_congr
          intro j hj
          rw [← h.counters, List.mem_range] at hj
          rw [List.getElem?_eq_getElem hj]
          rfl
      _ = _ := List.filterMap_some
  unfold retiring
  rw [List.map_append, hcounters, List.map_map, List.range_add, ← h.samplers, List.map_map]
  rfl

theorem mem_retiring (h : t.Shaped cfg) {c : ReadFormat} (hc : t.countAt cfg i = some c) :
    (i, c) ∈ t.retiring cfg := by
  unfold countAt at hc
  unfold retiring
  split_ifs at hc with hactive hi
  · apply List.mem_append_left
    rw [List.mem_filterMap]
    exact ⟨i, List.mem_range.mpr hi, by rw [hc]; rfl⟩
  · apply List.mem_append_right
    obtain ⟨s, hs, rfl⟩ := Option.map_eq_some_iff.mp hc
    have hindex : s.samplerIndex = i - cfg.numCounters := by
      have hget := congrArg (·[i - cfg.numCounters]?) h.samplers
      rw [List.getElem?_map, hs, Option.map_some] at hget
      obtain ⟨hlt, heq⟩ := List.getElem?_eq_some_iff.mp hget.symm
      rw [List.getElem_range] at heq
      exact heq.symm
    refine List.mem_map.mpr ⟨s, List.mem_of_getElem? hs, ?_⟩
    rw [hindex]
    congr 1
    omega

/-- An active thread counts under every index. -/
theorem exists_countAt (h : t.Shaped cfg) (hactive : t.active = true)
    (hi : i < cfg.numCounters + cfg.numSamplers) : ∃ c, t.countAt cfg i = some c := by
  have hlen : t.samplers.length = cfg.numSamplers := by
    simpa using congrArg List.length h.samplers
  unfold countAt
  rw [if_neg (by simp [hactive])]
  split_ifs with hc
  · exact ⟨_, List.getElem?_eq_getElem (by rw [h.counters]; exact hc)⟩
  · exact ⟨_, by rw [List.getElem?_eq_getElem (by omega)]; rfl⟩

/-- Retiring moves the value of every index into the sum. -/
theorem value_addCounts_retiring (h : t.Shaped cfg) (hactive : t.active = true)
    (hi : i < cfg.numCounters + cfg.numSamplers) (r : ℕ → ReadFormat) :
    (addCounts r (t.retiring cfg) i).value = (r i).value + t.valueAt cfg i := by
  obtain ⟨c, hc⟩ := exists_countAt h hactive hi
  have hnd : ((t.retiring cfg).map Prod.fst).Nodup := by
    rw [retiring_indices h]
    exact List.nodup_range
  rw [addCounts_of_mem hnd (mem_retiring h hc), valueAt, hc]
  rfl

theorem Shaped.grow (h : t.Shaped cfg) (more : ReadFormat) : (t.grow cfg i more).Shaped cfg := by
  unfold CounterThread.grow
  split_ifs
  · exact ⟨by simpa using h.counters, h.samplers⟩
  · refine ⟨h.counters, ?_⟩
    rw [← h.samplers]
    apply List.ext_getElem?
    intro k
    simp only [List.getElem?_map, List.getElem?_modify]
    cases t.samplers[k]? with
    | none => rfl
    | some s => split_ifs <;> rfl

theorem active_grow (more : ReadFormat) : (t.grow cfg i more).active = t.active := by
  unfold grow
  split_ifs <;> rfl

/-- Growing one event leaves the other indices alone. -/
theorem countAt_grow (more : ReadFormat) (j : ℕ) :
    (t.grow cfg i more).countAt cfg j =
      if i = j then (t.countAt cfg j).map (·.add more) else t.countAt cfg j := by
  unfold countAt
  rw [active_grow]
  by_cases hactive : t.active = false
  · rw [if_pos hactive, if_pos hactive]
    split_ifs <;> rfl
  rw [if_neg hactive, if_neg hactive]
  unfold grow
  by_cases hi : i < cfg.numCounters
  · rw [if_pos hi]
    by_cases hj : j < cfg.numCounters
    · rw [if_pos hj, if_pos hj]
      dsimp only
      rw [List.getElem?_modify]
      split_ifs
      · rfl
      · exact Option.map_id'
    · rw [if_neg hj, if_neg hj, if_neg (by omega)]
  · rw [if_neg hi]
    by_cases hj : j < cfg.numCounters
    · rw [if_pos hj, if_pos hj, if_neg (by omega)]
    · rw [if_neg hj, if_neg hj]
      dsimp only
      rw [List.getElem?_modify]
      by_cases hij : i = j
      · simp only [hij, if_true, Option.map_eq_map, Option.map_map]
        rfl
      · have hsub : ¬ i - cfg.numCounters = j - cfg.numCounters := by omega
        simp only [hij, hsub, if_false, Option.map_eq_map, Option.map_id']

theorem valueAt_grow {c : ReadFormat} (hc : t.countAt cfg i = some c) (more : ReadFormat) (j : ℕ) :
    (t.grow cfg i more).valueAt cfg j =
      t.valueAt cfg j + if i = j then more.value else 0 := by
  unfold valueAt
  rw [countAt_grow]
  split_ifs with hij
  · subst hij
    rw [hc]
    rfl
  · exact (BitVec.add_zero _).symm

end CounterThread

/-! ## The monitor -/

namespace CounterMonitor

variable {cfg : CounterCfg} {m m' : CounterMonitor}

def liveValue (cfg : CounterCfg) (tids : List ℤ) (threads : ℤ → CounterThread) (i : ℕ) : U64 :=
  (tids.map fun tid => (threads tid).valueAt cfg i).sum

theorem currentCount_value (i : ℕ) :
    (m.currentCount cfg i).value = (m.retired i).value + liveValue cfg m.tids m.threads i := by
  have hfold : ∀ (tids : List ℤ) (acc : ReadFormat),
      (tids.foldl (fun acc tid =>
        match (m.threads tid).countAt cfg i with
        | none => acc
        | some c => acc.add c) acc).value = acc.value + liveValue cfg tids m.threads i := by
    intro tids
    induction tids with
    | nil =>
        intro acc
        exact (BitVec.add_zero _).symm
    | cons tid tids ih =>
        intro acc
        have hcons : liveValue cfg (tid :: tids) m.threads i =
            (m.threads tid).valueAt cfg i + liveValue cfg tids m.threads i := List.sum_cons
        rw [List.foldl_cons, ih, hcons, CounterThread.valueAt]
        cases (m.threads tid).countAt cfg i with
        | none => exact congrArg (acc.value + ·) (BitVec.zero_add _).symm
        | some c => exact BitVec.add_assoc _ _ _
  exact hfold m.tids (m.retired i)

structure WellFormed (cfg : CounterCfg) (tids : List ℤ) (threads : ℤ → CounterThread) : Prop where
  nodup : tids.Nodup
  known : ∀ tid, (threads tid).active = true → tid ∈ tids
  shaped : ∀ tid, (threads tid).active = true → (threads tid).Shaped cfg

variable {tids : List ℤ} {threads : ℤ → CounterThread} {tid : ℤ}

theorem WellFormed.update (h : WellFormed cfg tids threads) (htid : tid ∈ tids) {t : CounterThread}
    (ht : t.active = true → t.Shaped cfg) :
    WellFormed cfg tids (Function.update threads tid t) := by
  refine ⟨h.nodup, fun tid' hact => ?_, fun tid' hact => ?_⟩
  · by_cases he : tid' = tid
    · exact he ▸ htid
    · rw [Function.update_of_ne he] at hact
      exact h.known tid' hact
  · by_cases he : tid' = tid
    · subst he
      rw [Function.update_self] at hact ⊢
      exact ht hact
    · rw [Function.update_of_ne he] at hact ⊢
      exact h.shaped tid' hact

/-- One thread changes by what its value changes. -/
theorem liveValue_update (h : WellFormed cfg tids threads) (htid : tid ∈ tids) (t : CounterThread)
    (i : ℕ) :
    liveValue cfg tids (Function.update threads tid t) i + (threads tid).valueAt cfg i =
      liveValue cfg tids threads i + t.valueAt cfg i := by
  have hsum := sum_map_change h.nodup htid (f := fun tid => (threads tid).valueAt cfg i)
    (g := fun tid' => (Function.update threads tid t tid').valueAt cfg i) fun b hb => by
      rw [Function.update_of_ne hb]
  rwa [Function.update_self] at hsum

/-- A new thread in the list, which has no events yet. -/
theorem WellFormed.register (h : WellFormed cfg tids threads) (tid : ℤ) :
    WellFormed cfg (if tid ∈ tids then tids else tids ++ [tid]) threads ∧
      ∀ i, liveValue cfg (if tid ∈ tids then tids else tids ++ [tid]) threads i =
        liveValue cfg tids threads i := by
  by_cases hmem : tid ∈ tids
  · rw [if_pos hmem]
    exact ⟨h, fun i => rfl⟩
  · rw [if_neg hmem]
    have hoff : (threads tid).active = false := by
      by_contra hact
      exact hmem (h.known tid (by simpa using hact))
    refine ⟨⟨?_, fun tid' hact => List.mem_append_left _ (h.known tid' hact), h.shaped⟩, fun i => ?_⟩
    · apply h.nodup.append (List.nodup_singleton _)
      simpa using hmem
    · unfold liveValue
      rw [List.map_append, List.sum_append, List.map_singleton, List.sum_singleton,
        CounterThread.valueAt_of_inactive hoff]
      exact BitVec.add_zero _

theorem mem_register (m : CounterMonitor) (tid : ℤ) :
    tid ∈ (if tid ∈ m.tids then m.tids else m.tids ++ [tid]) := by
  split_ifs with hmem
  · exact hmem
  · exact List.mem_append_right _ (List.mem_singleton_self tid)

theorem WellFormed.registerThreadLocked (h : WellFormed cfg m.tids m.threads) (tid : ℤ) :
    WellFormed cfg (m.registerThreadLocked cfg tid).tids
      (m.registerThreadLocked cfg tid).threads := by
  obtain ⟨hw, -⟩ := h.register tid
  unfold CounterMonitor.registerThreadLocked
  by_cases hact : (m.threads tid).active = true
  · rw [if_pos hact]
    exact hw
  · rw [if_neg hact]
    exact hw.update (mem_register m tid) fun _ => CounterThread.shaped_opened

theorem WellFormed.close (h : WellFormed cfg tids threads)
    (hactive : (threads tid).active = true) :
    WellFormed cfg tids (Function.update threads tid .closed) :=
  h.update (h.known tid hactive) fun hc => by cases hc

theorem active_of_countAt {i : ℕ} {c : ReadFormat} (hc : (threads tid).countAt cfg i = some c) :
    (threads tid).active = true := by
  by_contra hne
  rw [CounterThread.countAt, if_pos (by simpa using hne)] at hc
  cases hc

theorem WellFormed.grow (h : WellFormed cfg tids threads) {i : ℕ} {c : ReadFormat}
    (hc : (threads tid).countAt cfg i = some c) (more : ReadFormat) :
    WellFormed cfg tids (Function.update threads tid ((threads tid).grow cfg i more)) := by
  have hactive := active_of_countAt hc
  exact h.update (h.known tid hactive) fun _ => (h.shaped tid hactive).grow more

/-- How the counts of a monitor stand after a schedule. Up to `p` an index has been reported. -/
structure Counts (cfg : CounterCfg) (steps : List CounterStep) (m : CounterMonitor) : Prop where
  wellFormed : WellFormed cfg m.tids m.threads
  current : ∀ i, i < cfg.numCounters + cfg.numSamplers →
    (m.currentCount cfg i).value = BitVec.ofNat 64 (accumulated i steps)
  reported : ∀ i, ∃ p, p ≤ accumulated i steps ∧ m.prevCounters i = BitVec.ofNat 64 p ∧
    (p < 2 ^ 64 → m.reportedSum i = p)

theorem counts_initial : Counts cfg [] initial := by
  refine ⟨⟨List.nodup_nil, fun _ h => ?_, fun _ h => ?_⟩, fun i _ => rfl, fun i => ?_⟩
  · cases h
  · cases h
  · exact ⟨0, le_rfl, rfl, fun _ => rfl⟩

theorem accumulated_concat (i : ℕ) (steps : List CounterStep) (st : CounterStep) :
    accumulated i (steps ++ [st]) = accumulated i steps + st.counted i := by
  unfold accumulated
  rw [List.map_append, List.sum_append, List.map_singleton, List.sum_singleton]

variable {steps : List CounterStep} {st : CounterStep}

/-- A step that reports nothing. -/
theorem Counts.quiet (h : Counts cfg steps m) (hw : WellFormed cfg m'.tids m'.threads)
    (hcur : ∀ i, i < cfg.numCounters + cfg.numSamplers → (m'.currentCount cfg i).value =
      (m.currentCount cfg i).value + BitVec.ofNat 64 (st.counted i))
    (hprev : m'.prevCounters = m.prevCounters) (hrep : m'.reports = m.reports) :
    Counts cfg (steps ++ [st]) m' := by
  refine ⟨hw, fun i hi => ?_, fun i => ?_⟩
  · rw [hcur i hi, h.current i hi, accumulated_concat, BitVec.ofNat_add]
  · obtain ⟨p, hp, hpre, hsum⟩ := h.reported i
    refine ⟨p, ?_, by rw [hprev, hpre], fun hlt => ?_⟩
    · rw [accumulated_concat]
      omega
    · unfold reportedSum
      rw [hrep]
      exact hsum hlt

/-- A report brings the sum of the reports up to the count, without a wrap as long as the count is
below `2 ^ 64`. -/
theorem Counts.report (h : Counts cfg steps m) (includeSamplers : Bool) {i : ℕ}
    (hi : i < numReported cfg includeSamplers) :
    (m.readCounters cfg includeSamplers).prevCounters i = BitVec.ofNat 64 (accumulated i steps) ∧
      (accumulated i steps < 2 ^ 64 →
        (m.currentCount cfg i).value.toNat = accumulated i steps ∧
          m.prevCounters i ≤ (m.currentCount cfg i).value ∧
          (m.readCounters cfg includeSamplers).reportedSum i = accumulated i steps) := by
  have hall : i < cfg.numCounters + cfg.numSamplers := by
    unfold numReported at hi
    split_ifs at hi <;> omega
  have hcur := h.current i hall
  obtain ⟨p, hp, hpre, hsum⟩ := h.reported i
  refine ⟨?_, fun hlt => ?_⟩
  · rw [← hcur]
    exact if_pos hi
  have hvalue : (m.currentCount cfg i).value.toNat = accumulated i steps := by
    rw [hcur, BitVec.toNat_ofNat, Nat.mod_eq_of_lt hlt]
  have hprev : (m.prevCounters i).toNat = p := by
    rw [hpre, BitVec.toNat_ofNat, Nat.mod_eq_of_lt (by omega)]
  have hle : m.prevCounters i ≤ (m.currentCount cfg i).value := by
    rw [BitVec.le_def]
    omega
  refine ⟨hvalue, hle, ?_⟩
  -- the last report is the difference, the earlier ones make up the rest
  have hlast : ((((List.range (numReported cfg includeSamplers)).map (m.counterData cfg))[i]?).map
      fun c => c.value.toNat).getD 0 = accumulated i steps - p := by
    rw [List.getElem?_map, List.getElem?_range hi, Option.map_some, Option.map_some,
      Option.getD_some]
    change ((m.currentCount cfg i).value - m.prevCounters i).toNat = _
    rw [BitVec.toNat_sub_of_le hle, hvalue, hprev]
  have hprevSum := hsum (by omega)
  unfold reportedSum readCounters at *
  dsimp only
  rw [List.map_append, List.sum_append, List.map_singleton, List.sum_singleton, hprevSum, hlast]
  omega

theorem Counts.read (h : Counts cfg steps m) (includeSamplers : Bool)
    (hst : ∀ i, st.counted i = 0) :
    Counts cfg (steps ++ [st]) (m.readCounters cfg includeSamplers) := by
  have hacc : ∀ i, accumulated i (steps ++ [st]) = accumulated i steps := by
    intro i
    rw [accumulated_concat, hst, Nat.add_zero]
  refine ⟨h.wellFormed, fun i hi => ?_, fun i => ?_⟩
  · rw [hacc]
    exact h.current i hi
  · rw [hacc]
    by_cases hi : i < numReported cfg includeSamplers
    · obtain ⟨hpre, hrep⟩ := h.report includeSamplers hi
      exact ⟨_, le_rfl, hpre, fun hlt => (hrep hlt).2.2⟩
    · obtain ⟨p, hp, hpre, hsum⟩ := h.reported i
      refine ⟨p, hp, (if_neg hi).trans hpre, fun hlt => ?_⟩
      have hnone : ((((List.range (numReported cfg includeSamplers)).map (m.counterData cfg))[i]?).map
          fun c => c.value.toNat).getD 0 = 0 := by
        rw [List.getElem?_eq_none (by simpa using hi)]
        rfl
      have hprevSum := hsum hlt
      unfold reportedSum readCounters at *
      dsimp only
      rw [List.map_append, List.sum_append, List.map_singleton, List.sum_singleton, hnone, hprevSum]
      rfl

theorem Counts.register (h : Counts cfg steps m) (tid : ℤ) :
    Counts cfg (steps ++ [.registerThread tid]) (m.registerThreadLocked cfg tid) := by
  obtain ⟨hw, hlive⟩ := h.wellFormed.register tid
  have hzero : ∀ i, BitVec.ofNat 64 (CounterStep.counted i (.registerThread tid)) = 0 := fun _ => rfl
  refine h.quiet (h.wellFormed.registerThreadLocked tid) (fun i _ => ?_) rfl rfl
  rw [currentCount_value, currentCount_value, hzero]
  by_cases hact : (m.threads tid).active = true
  · unfold registerThreadLocked
    rw [if_pos hact]
    dsimp only
    rw [hlive i]
    exact (BitVec.add_zero _).symm
  · have hup := liveValue_update hw (mem_register m tid) (.opened cfg) i
    rw [CounterThread.valueAt_opened, CounterThread.valueAt_of_inactive (by simpa using hact),
      hlive i] at hup
    unfold registerThreadLocked
    rw [if_neg hact]
    dsimp only
    grind

/-- The counts of a thread go from its events into the sum. -/
theorem Counts.unregister (h : Counts cfg steps m) (tid : ℤ) :
    Counts cfg (steps ++ [.unregisterThread tid]) (m.unregisterThreadLocked cfg tid) := by
  have hzero : ∀ i, BitVec.ofNat 64 (CounterStep.counted i (.unregisterThread tid)) = 0 :=
    fun _ => rfl
  unfold unregisterThreadLocked
  by_cases hact : (m.threads tid).active = false
  · rw [if_pos hact]
    exact h.quiet h.wellFormed (fun i _ => (BitVec.add_zero _).symm) rfl rfl
  · rw [if_neg hact]
    have hactive : (m.threads tid).active = true := by simpa using hact
    have htid := h.wellFormed.known tid hactive
    refine h.quiet ?_ (fun i hi => ?_) rfl rfl
    · exact h.wellFormed.close hactive
    · have hup := liveValue_update h.wellFormed htid .closed i
      have hclosed : CounterThread.closed.valueAt cfg i = 0 := rfl
      have hretire := CounterThread.value_addCounts_retiring (h.wellFormed.shaped tid hactive)
        hactive hi m.retired
      rw [currentCount_value, currentCount_value, hzero]
      dsimp only
      grind

theorem Counts.count (h : Counts cfg steps m) {tid : ℤ} {i : ℕ} {c : ReadFormat}
    (hc : (m.threads tid).countAt cfg i = some c) (more : ReadFormat) :
    Counts cfg (steps ++ [.count tid i more])
      { m with threads := Function.update m.threads tid ((m.threads tid).grow cfg i more) } := by
  have htid := h.wellFormed.known tid (active_of_countAt hc)
  refine h.quiet ?_ (fun j _ => ?_) rfl rfl
  · exact h.wellFormed.grow hc more
  · have hup := liveValue_update h.wellFormed htid ((m.threads tid).grow cfg i more) j
    have hgrow := CounterThread.valueAt_grow hc more j
    have hcounted : BitVec.ofNat 64 (CounterStep.counted j (.count tid i more)) =
        if i = j then more.value else 0 := by
      rw [CounterStep.counted]
      split_ifs
      · rw [BitVec.ofNat_toNat, BitVec.setWidth_eq]
      · rfl
    rw [currentCount_value, currentCount_value, hcounted]
    dsimp only
    grind

theorem Counts.step (h : Counts cfg steps m) (hstep : m.step cfg st = some m') :
    Counts cfg (steps ++ [st]) m' := by
  cases st with
  | registerThread tid =>
      obtain rfl := Option.some.inj hstep
      exact h.register tid
  | unregisterThread tid =>
      obtain rfl := Option.some.inj hstep
      exact h.unregister tid
  | start =>
      obtain rfl := Option.some.inj hstep
      exact h.quiet h.wellFormed (fun i _ => (BitVec.add_zero _).symm) rfl rfl
  | stop =>
      obtain rfl := Option.some.inj hstep
      apply Counts.read
      · split_ifs
        · exact h
        · exact ⟨h.wellFormed, h.current, h.reported⟩
      · exact fun _ => rfl
  | readCounters includeSamplers =>
      obtain rfl := Option.some.inj hstep
      exact h.read includeSamplers fun _ => rfl
  | count tid i more =>
      rw [CounterMonitor.step] at hstep
      cases hc : (m.threads tid).countAt cfg i with
      | none =>
          rw [hc] at hstep
          cases hstep
      | some c =>
          rw [hc] at hstep
          dsimp only at hstep
          split_ifs at hstep
          obtain rfl := Option.some.inj hstep
          exact h.count hc more

theorem run_counts (h : run (CounterMonitor.step cfg) initial steps = some m) :
    Counts cfg steps m :=
  run_induction (P := Counts cfg) counts_initial (fun _ _ _ _ _ hm hs => hm.step hs) h

end CounterMonitor

/-- At every report, the values reported so far under an index add up to what the events of that
index have counted, and neither the sum over threads nor the difference to the last report wraps, as
long as the count is below `2 ^ 64`. -/
theorem window_counters_telescope (cfg : CounterCfg) (steps : List CounterStep) (st : CounterStep)
    (m m' : CounterMonitor) (hrun : run (CounterMonitor.step cfg) .initial steps = some m)
    (hstep : m.step cfg st = some m') (i : ℕ) (hi : st.reports cfg i = true)
    (htotal : accumulated i (steps ++ [st]) < 2 ^ 64) :
    m'.reportedSum i = accumulated i (steps ++ [st]) ∧
      (m.currentCount cfg i).value.toNat = accumulated i (steps ++ [st]) ∧
      m.prevCounters i ≤ (m.currentCount cfg i).value := by
  have hcounts := CounterMonitor.run_counts hrun
  rw [CounterMonitor.accumulated_concat] at htotal ⊢
  cases st with
  | registerThread tid => cases hi
  | unregisterThread tid => cases hi
  | start => cases hi
  | count tid j more => cases hi
  | stop =>
      obtain rfl := Option.some.inj hstep
      have hsame : CounterMonitor.Counts cfg steps
          (if cfg.nonstopMode then m else { m with eventsEnabled := false }) := by
        split_ifs
        · exact hcounts
        · exact ⟨hcounts.wellFormed, hcounts.current, hcounts.reported⟩
      have hm := (hcounts.report true (of_decide_eq_true hi)).2 htotal
      exact ⟨((hsame.report true (of_decide_eq_true hi)).2 htotal).2.2, hm.1, hm.2.1⟩
  | readCounters includeSamplers =>
      obtain rfl := Option.some.inj hstep
      have hm := (hcounts.report includeSamplers (of_decide_eq_true hi)).2 htotal
      exact ⟨hm.2.2, hm.1, hm.2.1⟩

/-- Two threads, of which one leaves between two reports. -/
theorem window_counters_telescope_small :
    let cfg : CounterCfg := ⟨1, 0, false⟩
    let steps : List CounterStep := [.registerThread 7, .registerThread 8, .start,
      .count 7 0 ⟨5, 1, 1⟩, .stop, .count 8 0 ⟨3, 1, 1⟩, .unregisterThread 7, .start,
      .count 8 0 ⟨4, 1, 1⟩]
    ∃ m m', run (CounterMonitor.step cfg) .initial steps = some m ∧ m.step cfg .stop = some m' ∧
      m'.reportedSum 0 = 12 := by
  intro cfg steps
  obtain ⟨m, hm⟩ : ∃ m, run (CounterMonitor.step cfg) .initial steps = some m := ⟨_, rfl⟩
  obtain ⟨m', hm'⟩ : ∃ m', m.step cfg .stop = some m' := ⟨_, rfl⟩
  exact ⟨m, m', hm, hm',
    (window_counters_telescope cfg steps .stop m m' hm hm' 0 (by decide) (by decide)).1⟩

/-- Two events of one index that have counted `2 ^ 63` each are reported as nothing. -/
theorem window_counters_wrap :
    let cfg : CounterCfg := ⟨1, 0, false⟩
    let half : ReadFormat := ⟨2 ^ 63, 0, 0⟩
    let steps : List CounterStep := [.registerThread 7, .registerThread 8, .count 7 0 half,
      .count 8 0 half, .readCounters true]
    ∃ m, run (CounterMonitor.step cfg) .initial steps = some m ∧ m.reportedSum 0 = 0 ∧
      accumulated 0 steps = 2 ^ 64 := by
  intro cfg half steps
  have hsum : (run (CounterMonitor.step cfg) .initial steps).map (·.reportedSum 0) = some 0 := by
    decide +kernel
  obtain ⟨m, hm, hzero⟩ := Option.map_eq_some_iff.mp hsum
  exact ⟨m, hm, hzero, by decide +kernel⟩

end RdSpeTool
