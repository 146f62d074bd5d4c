import Mathlib.Data.List.AList
import RdSpeTool.ModuleMaps
import RdSpeTool.Schedule
import RdSpeTool.SpeStream

/-!
# Hotspots of a first-stage run

Each SPE sample goes to the sample file of its thread and into the hotspot table of that thread,
under the module and file offset of its PC. A run interleaves the opening of slots, the steps of
`Monitor::start`, and drains. Its log says under which key each counted sample went in, and the
tables are the sums over the log.
-/

namespace RdSpeTool

open Schedule

/-! ## What a drain does to a slot -/

def SpeKind.isLatency : SpeKind → Bool
  | .latTotal => true
  | .latIssue => true
  | .latXlat => true
  | _ => false

/-- All a packet of arbitrary bytes does to a slot. -/
theorem Sampler.decodePacket_cases (s : Sampler) (mem : ℕ → U8) (pos : ℕ) :
    (∃ k v, (s.decodePacket mem pos).1 = { s with pending := s.pending.put k v } ∧
        (k.isLatency = true → v.toNat < 2 ^ 16)) ∨
      (∃ b, (s.decodePacket mem pos).1 = s.flushPendingSpeSampleLocked b) ∨
      ∃ n, (s.decodePacket mem pos).1 = { s with speUnknownPacketCount := n } := by
  have hcounter : isArmSpeCounterPacket (mem pos) = true →
      (readSpePayload mem pos (armSpePayloadSize (mem pos))).toNat < 2 ^ 16 := by
    intro hc
    obtain ⟨idx, hidx⟩ := exists_counterHeader _ hc
    rw [hidx, (counterHeader_class idx).2.2.2]
    exact leWord_two (by simp)
  generalize hr : s.decodePacket mem pos = r
  unfold decodePacket at hr
  dsimp only at hr
  split_ifs at hr with h1 h2 h3 h4
  all_goals subst hr
  · exact .inl ⟨.pc, _, rfl, fun hk => absurd hk (by decide)⟩
  · exact .inl ⟨.dataVa, _, rfl, fun hk => absurd hk (by decide)⟩
  · exact .inr (.inr ⟨s.speUnknownPacketCount, rfl⟩)
  · exact .inl ⟨.latTotal, _, rfl, fun _ => hcounter h4⟩
  · exact .inl ⟨.latIssue, _, rfl, fun _ => hcounter h4⟩
  · exact .inl ⟨.latXlat, _, rfl, fun _ => hcounter h4⟩
  · exact .inr (.inr ⟨s.speUnknownPacketCount, rfl⟩)
  · exact .inl ⟨.events, _, rfl, fun hk => absurd hk (by decide)⟩
  · exact .inr (.inr ⟨s.speUnknownPacketCount, rfl⟩)
  · exact .inr (.inl ⟨_, rfl⟩)
  · exact .inr (.inl ⟨_, rfl⟩)
  all_goals exact .inr (.inr ⟨_, rfl⟩)

section DrainInvariant

variable {P : SpeSample → List Written → Prop}
  (hput : ∀ p w k v, (k.isLatency = true → v.toNat < 2 ^ 16) → P p w → P (p.put k v) w)
  (hclear : ∀ p w, P p w → P .zero w)
  (hwrite : ∀ p w, p.flags &&& pcValid ≠ 0 → P p w → P .zero (w ++ [.spe (Sampler.sampleOf p)]))

include hclear hwrite

theorem Sampler.flush_invariant {s : Sampler} (h : P s.pending s.written) (b : Bool) :
    P (s.flushPendingSpeSampleLocked b).pending (s.flushPendingSpeSampleLocked b).written := by
  unfold flushPendingSpeSampleLocked
  by_cases hpc : s.pending.flags &&& pcValid = 0
  · rw [if_pos hpc]
    exact hclear _ _ h
  · rw [if_neg hpc]
    exact hwrite _ _ hpc h

include hput

theorem Sampler.packet_invariant {s : Sampler} (h : P s.pending s.written) (mem : ℕ → U8)
    (pos : ℕ) : P (s.decodePacket mem pos).1.pending (s.decodePacket mem pos).1.written := by
  obtain ⟨k, v, he, hv⟩ | ⟨b, he⟩ | ⟨n, he⟩ := s.decodePacket_cases mem pos
  · rw [he]
    exact hput _ _ k v hv h
  · rw [he]
    exact Sampler.flush_invariant hclear hwrite h b
  · rw [he]
    exact h

theorem Sampler.aux_invariant (area : AuxArea) (offset size : U64) (it : ℕ) {s : Sampler}
    (h : P s.pending s.written) :
    P (decodeAux area offset size it s).pending (decodeAux area offset size it s).written := by
  induction it, s using decodeAux.induct area offset size with
  | case1 it s hlt pos r ih =>
      rw [decodeAux, if_pos hlt]
      exact ih (Sampler.packet_invariant hput hclear hwrite h area.mem pos)
  | case2 it s hge =>
      rw [decodeAux, if_neg hge]
      exact h

variable {records : List RingRecord}
  (hsample : ∀ p w time addr, .sample time addr ∈ records → P p w → P p (w ++ [.sample time addr]))

include hsample

theorem Sampler.record_invariant (area : AuxArea) {r : RingRecord} (hr : r ∈ records)
    {s : Sampler} (h : P s.pending s.written) :
    P (s.processRecord area r).pending (s.processRecord area r).written := by
  cases r with
  | sample time addr => exact hsample _ _ time addr hr h
  | throttle => exact h
  | unthrottle => exact h
  | itraceStart => exact h
  | other type => exact h
  | aux offset size flags =>
      have hcollide : P (s.noteCollision flags).pending (s.noteCollision flags).written := by
        unfold noteCollision
        split_ifs
        · exact h
        · exact h
      unfold processRecord
      dsimp only
      split_ifs
      · exact Sampler.aux_invariant hput hclear hwrite area offset size 0 hcollide
      · exact hcollide

/-- What the packets and records of a drain keep holds after it. `P` speaks of the pending sample and
of the writes. -/
theorem Sampler.drain_invariant {s : Sampler} (h : P s.pending s.written) (area : AuxArea) :
    P (s.processSamplesLocked area records).pending
      (s.processSamplesLocked area records).written := by
  have hfold : ∀ (rs : List RingRecord) (s : Sampler), (∀ r ∈ rs, r ∈ records) →
      P s.pending s.written → P (rs.foldl (fun s r => s.processRecord area r) s).pending
        (rs.foldl (fun s r => s.processRecord area r) s).written := by
    intro rs
    induction rs with
    | nil => exact fun s _ hs => hs
    | cons r rs ih =>
        intro s hmem hs
        rw [List.forall_mem_cons] at hmem
        apply ih _ hmem.2
        exact Sampler.record_invariant hput hclear hwrite hsample area hmem.1 hs
  unfold processSamplesLocked
  split_ifs
  · exact h
  · exact h
  · exact hfold records _ (fun r hr => hr) h

end DrainInvariant

theorem Sampler.mem_speWritten {s : Sampler} {x : SpeSample} :
    x ∈ s.speWritten ↔ .spe x ∈ s.written := by
  unfold speWritten
  rw [List.mem_filterMap]
  constructor
  · rintro ⟨w, hw, hx⟩
    cases w with
    | sample time addr => cases hx
    | spe y =>
        cases hx
        exact hw
  · exact fun h => ⟨_, h, rfl⟩

/-! ## Statistics of a hotspot -/

structure HotspotStats where
  sampleCount : U64
  latTotalSum : U64
  latTotalCount : U64
  latIssueSum : U64
  latIssueCount : U64
  latXlatSum : U64
  latXlatCount : U64
  latExecSum : U64
  latExecCount : U64
  l1dRefillCount : U64
  llcMissCount : U64
  tlbWalkCount : U64
  remoteAccessCount : U64
  deriving DecidableEq

def HotspotStats.zero : HotspotStats := ⟨0, 0, 0, 0, 0, 0, 0, 0, 0, 0, 0, 0, 0⟩

def speEventL1dRefill : ℕ := 3
def speEventTlbWalk : ℕ := 5
def speEventLlcMiss : ℕ := 9
def speEventRemoteAccess : ℕ := 10

namespace SpeSample

variable (x : SpeSample)

def hasFlag (flag : U64) : Bool := x.flags &&& flag ≠ 0

def speSampleHasEvent (eventBit : ℕ) : Bool :=
  x.hasFlag eventsValid ∧ x.eventBits &&& (1 <<< eventBit) ≠ 0

end SpeSample

def tally (c : Bool) : U64 := if c then 1 else 0

def HotspotStats.add (st : HotspotStats) (x : SpeSample) : HotspotStats where
  sampleCount := st.sampleCount + 1
  latTotalSum := st.latTotalSum + if x.hasFlag latTotalValid then x.latTotal else 0
  latTotalCount := st.latTotalCount + tally (x.hasFlag latTotalValid)
  latIssueSum := st.latIssueSum + if x.hasFlag latIssueValid then x.latIssue else 0
  latIssueCount := st.latIssueCount + tally (x.hasFlag latIssueValid)
  latXlatSum := st.latXlatSum + if x.hasFlag latXlatValid then x.latXlat else 0
  latXlatCount := st.latXlatCount + tally (x.hasFlag latXlatValid)
  latExecSum := st.latExecSum +
    if x.hasFlag latExecValid then x.latTotal - (x.latIssue + x.latXlat) else 0
  latExecCount := st.latExecCount + tally (x.hasFlag latExecValid)
  l1dRefillCount := st.l1dRefillCount + tally (x.speSampleHasEvent speEventL1dRefill)
  llcMissCount := st.llcMissCount + tally (x.speSampleHasEvent speEventLlcMiss)
  tlbWalkCount := st.tlbWalkCount + tally (x.speSampleHasEvent speEventTlbWalk)
  remoteAccessCount := st.remoteAccessCount + tally (x.speSampleHasEvent speEventRemoteAccess)

abbrev HotspotTable := AList fun _ : HotspotKey => HotspotStats

/-- `table[key]` makes a zero entry if there is none. -/
def HotspotTable.record (t : HotspotTable) (key : HotspotKey) (x : SpeSample) : HotspotTable :=
  t.insert key (((t.lookup key).getD .zero).add x)

/-! ## The monitor -/

structure SpeSlot where
  tid : ℤ
  samplerIndex : ℕ
  sampler : Sampler

/-- The part of `Monitor` that turns SPE data into sample files and hotspots. A slot stands at the
place of its slot id. -/
structure SpeMonitor where
  tids : List ℤ
  slots : List SpeSlot
  kinfos : List Kinfo
  mainBinary : Text
  moduleMaps : List ModuleMapEntry
  files : ℤ → ℕ → List Written
  hotspots : ℤ → HotspotTable
  hotspotUnmappedSamples : U64

inductive SpeStep
  | register (tid : ℤ) (samplerIndex : ℕ)
  | openWindow
  | readMainBinary
  | readMapsLine (realpath : Text → Option Text) (line : Text)
  | drain (slot : ℕ) (area : AuxArea) (records : List RingRecord)

def RingRecord.isSample : RingRecord → Bool
  | .sample _ _ => true
  | _ => false

namespace SpeMonitor

def initial : SpeMonitor := ⟨[], [], [], [], [], fun _ _ => [], fun _ => ∅, 0⟩

variable (m : SpeMonitor)

def recordKey (tid : ℤ) (x : SpeSample) : Option HotspotKey :=
  if tid ≤ 0 ∨ x.pc = 0 ∨ x.hasFlag pcValid = false then none
  else hotspotKey m.mainBinary m.moduleMaps x.pc

/-- `record_hotspot_sample`; `sample_pc_present()` holds in a monitor of SPE events. -/
def recordHotspotSample (tid : ℤ) (x : SpeSample) : SpeMonitor :=
  if tid ≤ 0 ∨ x.pc = 0 ∨ x.hasFlag pcValid = false then m
  else
    match findModuleMap m.moduleMaps x.pc with
    | none => { m with hotspotUnmappedSamples := m.hotspotUnmappedSamples + 1 }
    | some e =>
        if isMainBinaryModule m.mainBinary e then
          let key : HotspotKey := ⟨e.moduleId, x.pc - e.vmStart + e.fileOffset⟩
          { m with hotspots := Function.update m.hotspots tid ((m.hotspots tid).record key x) }
        else m

def drained (slot : SpeSlot) (area : AuxArea) (records : List RingRecord) : Sampler :=
  { slot.sampler with kinfos := m.kinfos, written := [] }.processSamplesLocked area records

/-- The monitor after a drain of the slot with id `i`. A flush writes a sample and then records it.
Recording changes only the hotspot tables, which a drain does not read, so it comes here after the
writes. -/
def afterDrain (i : ℕ) (slot : SpeSlot) (area : AuxArea) (records : List RingRecord) : SpeMonitor :=
  let s := m.drained slot area records
  { s.speWritten.foldl (fun m x => m.recordHotspotSample slot.tid x) m with
      kinfos := s.kinfos
      slots := m.slots.set i { slot with sampler := s }
      files := Function.update m.files slot.tid
        (Function.update (m.files slot.tid) slot.samplerIndex
          (m.files slot.tid slot.samplerIndex ++ s.written)) }

/-- `exePath` is what `read_self_exe_path` finds for this process. -/
def step (exePath : Text) (m : SpeMonitor) : SpeStep → Option SpeMonitor
  -- a thread id is positive; a thread that comes back keeps its sample files
  | .register tid samplerIndex =>
      if tid ≤ 0 then none
      else some { m with
        tids := if tid ∈ m.tids then m.tids else m.tids ++ [tid]
        slots := m.slots ++ [⟨tid, samplerIndex, .fresh⟩] }
  -- `start` opens the window first, and then reads path and mappings beside running drains
  | .openWindow => some { m with kinfos := m.kinfos ++ [⟨0, 0⟩] }
  | .readMainBinary =>
      some { m with mainBinary := if m.mainBinary = [] then exePath else m.mainBinary }
  | .readMapsLine realpath line =>
      if m.mainBinary ≠ exePath then none
      else some { m with moduleMaps := snapshotModuleMaps realpath [line] m.moduleMaps }
  -- the data ring of an SPE event has no `PERF_RECORD_SAMPLE`
  | .drain i area records =>
      if records.any RingRecord.isSample then none
      else (m.slots[i]?).map fun slot => m.afterDrain i slot area records

end SpeMonitor

/-! ## The log of a run -/

structure LogEntry where
  tid : ℤ
  key : HotspotKey
  sample : SpeSample
  deriving DecidableEq

namespace SpeMonitor

variable (m : SpeMonitor)

def entriesOf (tid : ℤ) (xs : List SpeSample) : List LogEntry :=
  xs.filterMap fun x => (m.recordKey tid x).map fun key => ⟨tid, key, x⟩

def stepLog : SpeStep → List LogEntry
  | .drain i area records =>
      match m.slots[i]? with
      | none => []
      | some slot => m.entriesOf slot.tid (m.drained slot area records).speWritten
  | _ => []

def log (exePath : Text) (m : SpeMonitor) : List SpeStep → List LogEntry
  | [] => []
  | st :: steps =>
      m.stepLog st ++
        match m.step exePath st with
        | none => []
        | some m' => log exePath m' steps

end SpeMonitor

def samplesUnder (tid : ℤ) (key : HotspotKey) (log : List LogEntry) : List SpeSample :=
  (log.filter fun r => r.tid = tid ∧ r.key = key).map LogEntry.sample

def HotspotStats.ofSamples (xs : List SpeSample) : HotspotStats := xs.foldl .add .zero

def HotspotTable.entryAfter (t : HotspotTable) (key : HotspotKey) (xs : List SpeSample) :
    Option HotspotStats :=
  if xs = [] then t.lookup key else some (xs.foldl .add ((t.lookup key).getD .zero))

/-! ## Tables are sums over the log -/

theorem samplesUnder_append (tid : ℤ) (key : HotspotKey) (l l' : List LogEntry) :
    samplesUnder tid key (l ++ l') = samplesUnder tid key l ++ samplesUnder tid key l' := by
  unfold samplesUnder
  rw [List.filter_append, List.map_append]

theorem samplesUnder_cons (tid : ℤ) (key : HotspotKey) (r : LogEntry) (l : List LogEntry) :
    samplesUnder tid key (r :: l) =
      if r.tid = tid ∧ r.key = key then r.sample :: samplesUnder tid key l
      else samplesUnder tid key l := by
  unfold samplesUnder
  by_cases h : r.tid = tid ∧ r.key = key
  · rw [if_pos h, List.filter_cons_of_pos (by simpa using h), List.map_cons]
  · rw [if_neg h, List.filter_cons_of_neg (by simpa using h)]

theorem samplesUnder_sublist (tid : ℤ) (key : HotspotKey) (log : List LogEntry) :
    (samplesUnder tid key log).length ≤ log.length ∧
      ∀ x ∈ samplesUnder tid key log, ∃ r ∈ log, r.sample = x := by
  unfold samplesUnder
  constructor
  · rw [List.length_map]
    exact List.length_filter_le _ _
  · intro x hx
    obtain ⟨r, hr, rfl⟩ := List.mem_map.mp hx
    exact ⟨r, List.mem_of_mem_filter hr, rfl⟩

namespace SpeMonitor

variable (m : SpeMonitor)

/-- All that recording a sample does. -/
theorem recordHotspotSample_cases (tid : ℤ) (x : SpeSample) :
    (∃ n, m.recordKey tid x = none ∧
        m.recordHotspotSample tid x = { m with hotspotUnmappedSamples := n }) ∨
      ∃ key, m.recordKey tid x = some key ∧
        m.recordHotspotSample tid x =
          { m with hotspots := Function.update m.hotspots tid ((m.hotspots tid).record key x) } := by
  unfold recordHotspotSample recordKey hotspotKey
  by_cases hskip : tid ≤ 0 ∨ x.pc = 0 ∨ x.hasFlag pcValid = false
  · rw [if_pos hskip, if_pos hskip]
    exact .inl ⟨m.hotspotUnmappedSamples, rfl, rfl⟩
  · rw [if_neg hskip, if_neg hskip]
    cases hfind : findModuleMap m.moduleMaps x.pc with
    | none => exact .inl ⟨_, rfl, rfl⟩
    | some e =>
        dsimp only
        by_cases hmain : isMainBinaryModule m.mainBinary e
        · rw [if_pos hmain, if_pos hmain]
          exact .inr ⟨_, rfl, rfl⟩
        · rw [if_neg hmain, if_neg hmain]
          exact .inl ⟨m.hotspotUnmappedSamples, rfl, rfl⟩

theorem recordHotspotSample_frame (tid : ℤ) (x : SpeSample) :
    (m.recordHotspotSample tid x).mainBinary = m.mainBinary ∧
      (m.recordHotspotSample tid x).moduleMaps = m.moduleMaps ∧
      (m.recordHotspotSample tid x).tids = m.tids := by
  obtain ⟨n, -, h⟩ | ⟨key, -, h⟩ := m.recordHotspotSample_cases tid x
  · rw [h]
    exact ⟨rfl, rfl, rfl⟩
  · rw [h]
    exact ⟨rfl, rfl, rfl⟩

end SpeMonitor

theorem HotspotTable.lookup_record (t : HotspotTable) (key key' : HotspotKey) (x : SpeSample) :
    (t.record key x).lookup key' =
      if key = key' then some (((t.lookup key).getD .zero).add x) else t.lookup key' := by
  unfold record
  by_cases h : key = key'
  · subst h
    rw [if_pos rfl, AList.lookup_insert]
  · rw [if_neg h, AList.lookup_insert_ne (Ne.symm h)]

theorem HotspotTable.entryAfter_cons (t : HotspotTable) (key : HotspotKey) (x : SpeSample)
    (xs : List SpeSample) :
    t.entryAfter key (x :: xs) = (t.record key x).entryAfter key xs := by
  unfold entryAfter
  rw [if_neg (List.cons_ne_nil x xs), lookup_record, if_pos rfl]
  cases xs with
  | nil => rfl
  | cons y ys => rfl

theorem HotspotTable.entryAfter_append (t : HotspotTable) {t' : HotspotTable} {key : HotspotKey}
    {xs : List SpeSample} (h : t'.lookup key = t.entryAfter key xs) (ys : List SpeSample) :
    t'.entryAfter key ys = t.entryAfter key (xs ++ ys) := by
  unfold entryAfter at *
  cases ys with
  | nil => simpa using h
  | cons y ys =>
      rw [if_neg (List.cons_ne_nil y ys), if_neg (by simp), List.foldl_append, h]
      cases xs with
      | nil => rfl
      | cons x xs => rfl

namespace SpeMonitor

/-- Recording a list of samples changes the tables by those counted under a key. -/
theorem foldl_record (xs : List SpeSample) (tid : ℤ) (m : SpeMonitor) :
    let m' := xs.foldl (fun m x => m.recordHotspotSample tid x) m
    (m'.mainBinary = m.mainBinary ∧ m'.moduleMaps = m.moduleMaps ∧ m'.tids = m.tids) ∧
      ∀ t key, (m'.hotspots t).lookup key =
        (m.hotspots t).entryAfter key (samplesUnder t key (m.entriesOf tid xs)) := by
  induction xs generalizing m with
  | nil => exact ⟨⟨rfl, rfl, rfl⟩, fun t key => rfl⟩
  | cons x xs ih =>
      obtain ⟨hbin, hmaps, htids⟩ := m.recordHotspotSample_frame tid x
      obtain ⟨⟨hbin', hmaps', htids'⟩, hlook⟩ := ih (m.recordHotspotSample tid x)
      refine ⟨⟨hbin'.trans hbin, hmaps'.trans hmaps, htids'.trans htids⟩, fun t key => ?_⟩
      have hsame : (m.recordHotspotSample tid x).entriesOf tid xs = m.entriesOf tid xs := by
        unfold entriesOf recordKey
        rw [hbin, hmaps]
      rw [List.foldl_cons, hlook t key, hsame]
      obtain ⟨n, hkey, h⟩ | ⟨key', hkey, h⟩ := m.recordHotspotSample_cases tid x
      · rw [h]
        simp only [entriesOf, List.filterMap_cons, hkey, Option.map_none]
      · rw [h]
        have hentries : m.entriesOf tid (x :: xs) = ⟨tid, key', x⟩ :: m.entriesOf tid xs := by
          simp only [entriesOf, List.filterMap_cons, hkey, Option.map_some]
        rw [hentries, samplesUnder_cons]
        dsimp only
        by_cases ht : tid = t
        · subst ht
          rw [Function.update_self]
          by_cases hk : key' = key
          · subst hk
            rw [if_pos ⟨rfl, rfl⟩, HotspotTable.entryAfter_cons]
          · rw [if_neg (fun hc => hk hc.2)]
            unfold HotspotTable.entryAfter
            rw [HotspotTable.lookup_record, if_neg hk]
        · rw [Function.update_of_ne (Ne.symm ht), if_neg (fun hc => ht hc.1)]

variable {exePath : Text} {m m' : SpeMonitor}

/-- All a step can do. -/
theorem step_cases {st : SpeStep} (h : m.step exePath st = some m') :
    (∃ tid k, st = .register tid k ∧ 0 < tid ∧ m' = { m with
        tids := if tid ∈ m.tids then m.tids else m.tids ++ [tid]
        slots := m.slots ++ [⟨tid, k, .fresh⟩] }) ∨
      (st = .openWindow ∧ m' = { m with kinfos := m.kinfos ++ [⟨0, 0⟩] }) ∨
      (st = .readMainBinary ∧
        m' = { m with mainBinary := if m.mainBinary = [] then exePath else m.mainBinary }) ∨
      (∃ realpath line, st = .readMapsLine realpath line ∧ m.mainBinary = exePath ∧
        m' = { m with moduleMaps := snapshotModuleMaps realpath [line] m.moduleMaps }) ∨
      ∃ i area records slot, st = .drain i area records ∧ (∀ r ∈ records, r.isSample = false) ∧
        m.slots[i]? = some slot ∧ m' = m.afterDrain i slot area records := by
  cases st with
  | register tid k =>
      rw [step] at h
      by_cases htid : tid ≤ 0
      · rw [if_pos htid] at h
        cases h
      · rw [if_neg htid] at h
        exact .inl ⟨tid, k, rfl, by omega, (Option.some.inj h).symm⟩
  | openWindow => exact .inr (.inl ⟨rfl, (Option.some.inj h).symm⟩)
  | readMainBinary => exact .inr (.inr (.inl ⟨rfl, (Option.some.inj h).symm⟩))
  | readMapsLine realpath line =>
      rw [step] at h
      by_cases hbin : m.mainBinary = exePath
      · rw [if_neg (by simpa using hbin)] at h
        exact .inr (.inr (.inr (.inl ⟨realpath, line, rfl, hbin, (Option.some.inj h).symm⟩)))
      · rw [if_pos hbin] at h
        cases h
  | drain i area records =>
      rw [step] at h
      by_cases hany : records.any RingRecord.isSample
      · rw [if_pos hany] at h
        cases h
      · rw [if_neg hany] at h
        obtain ⟨slot, hslot, rfl⟩ := Option.map_eq_some_iff.mp h
        refine .inr (.inr (.inr (.inr ⟨i, area, records, slot, rfl, ?_, hslot, rfl⟩)))
        simpa using hany

theorem step_hotspots {st : SpeStep} (h : m.step exePath st = some m') (tid : ℤ)
    (key : HotspotKey) :
    (m'.hotspots tid).lookup key =
      (m.hotspots tid).entryAfter key (samplesUnder tid key (m.stepLog st)) := by
  obtain ⟨_, _, rfl, -, rfl⟩ | ⟨rfl, rfl⟩ | ⟨rfl, rfl⟩ | ⟨_, _, rfl, -, rfl⟩ |
    ⟨i, area, records, slot, rfl, -, hslot, rfl⟩ := step_cases h
  · rfl
  · rfl
  · rfl
  · rfl
  · simp only [stepLog, hslot]
    exact (foldl_record _ slot.tid m).2 tid key

/-- After a run, each entry is the sum over the samples the run counted under it. -/
theorem run_hotspots {steps : List SpeStep} (h : run (step exePath) m steps = some m') (tid : ℤ)
    (key : HotspotKey) :
    (m'.hotspots tid).lookup key =
      (m.hotspots tid).entryAfter key (samplesUnder tid key (log exePath m steps)) := by
  induction steps generalizing m with
  | nil =>
      rw [← Option.some.inj h]
      rfl
  | cons st steps ih =>
      obtain ⟨m₁, hstep, hrun⟩ := exists_of_run_cons h
      change _ = (m.hotspots tid).entryAfter key (samplesUnder tid key (m.stepLog st ++ _))
      rw [hstep, samplesUnder_append, ih hrun]
      exact HotspotTable.entryAfter_append _ (step_hotspots hstep tid key) _

theorem run_lookup {steps : List SpeStep} (h : run (step exePath) initial steps = some m)
    {tid : ℤ} {key : HotspotKey} {st : HotspotStats} (hst : (m.hotspots tid).lookup key = some st) :
    st = .ofSamples (samplesUnder tid key (log exePath initial steps)) := by
  rw [run_hotspots h] at hst
  unfold HotspotTable.entryAfter at hst
  split_ifs at hst with hnil
  · cases hst
  · exact (Option.some.inj hst).symm

end SpeMonitor

end RdSpeTool
