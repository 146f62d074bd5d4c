import RdSpeTool.OfflineAnalysis

/-!
# Offline counts are the online counts

The hotspot tables count samples as they are decoded, with the mappings known at that time. The
script counts them afterwards, with all mappings. Mappings are only appended and the first one that
covers a PC counts, so both agree unless a mapping comes too late.
-/

namespace RdSpeTool

open CText ByteRecords Schedule

/-! ## A run and its final state -/

def speSamples (ws : List Written) : List SpeSample :=
  ws.filterMap fun w => match w with
    | .spe x => some x
    | .sample _ _ => none

theorem speSamples_append (ws ws' : List Written) :
    speSamples (ws ++ ws') = speSamples ws ++ speSamples ws' := List.filterMap_append

namespace SpeMonitor

def slotIds (m : SpeMonitor) : List (ℤ × ℕ) := m.slots.map fun slot => (slot.tid, slot.samplerIndex)

structure Consistent (exePath : Text) (m : SpeMonitor) : Prop where
  moduleIds : ∀ i e, m.moduleMaps[i]? = some e → e.moduleId = BitVec.ofNat 32 i
  mainRead : m.moduleMaps ≠ [] → m.mainBinary = exePath
  mainOr : m.mainBinary = [] ∨ m.mainBinary = exePath
  speOnly : ∀ tid k w, w ∈ m.files tid k → ∃ x, w = .spe x
  tidPos : ∀ id ∈ m.slotIds, 0 < id.1

structure Grows (exePath : Text) (m m' : SpeMonitor) : Prop where
  maps : m.moduleMaps <+: m'.moduleMaps
  slots : m.slotIds <+: m'.slotIds
  main : m.mainBinary = exePath → m'.mainBinary = exePath

theorem Grows.refl (exePath : Text) (m : SpeMonitor) : Grows exePath m m :=
  ⟨List.prefix_rfl, List.prefix_rfl, id⟩

theorem Grows.trans {exePath : Text} {m m' m'' : SpeMonitor} (h : Grows exePath m m')
    (h' : Grows exePath m' m'') : Grows exePath m m'' :=
  ⟨h.maps.trans h'.maps, h.slots.trans h'.slots, fun hm => h'.main (h.main hm)⟩

variable {exePath : Text} {m m' : SpeMonitor}

theorem rememberModuleMap_cases (realpath : Text → Option Text) (table : List ModuleMapEntry)
    (l : MapsLine) : rememberModuleMap realpath table l = table ∨
      ∃ e, rememberModuleMap realpath table l = table ++ [e] ∧
        e.moduleId = BitVec.ofNat 32 table.length := by
  unfold rememberModuleMap
  dsimp only
  split_ifs
  · exact .inl rfl
  · exact .inr ⟨_, rfl, rfl⟩
  · exact .inl rfl
  · exact .inr ⟨_, rfl, rfl⟩

theorem snapshot_line_cases (realpath : Text → Option Text) (table : List ModuleMapEntry)
    (line : Text) : snapshotModuleMaps realpath [line] table = table ∨
      ∃ e, snapshotModuleMaps realpath [line] table = table ++ [e] ∧
        e.moduleId = BitVec.ofNat 32 table.length := by
  unfold snapshotModuleMaps
  rw [List.foldl_cons, List.foldl_nil]
  cases parseMapsLine line with
  | none => exact .inl rfl
  | some l => exact rememberModuleMap_cases realpath table _

/-- A drain of an SPE slot writes SPE samples only. -/
theorem drained_speOnly {slot : SpeSlot} {records : List RingRecord}
    (hrec : ∀ r ∈ records, r.isSample = false) (area : AuxArea) :
    ∀ w ∈ (m.drained slot area records).written, ∃ x, w = .spe x := by
  unfold drained
  apply Sampler.drain_invariant (P := fun _ ws => ∀ w ∈ ws, ∃ x, w = .spe x)
  case hput => exact fun p w k v _ h => h
  case hclear => exact fun p w h => h
  case hwrite =>
    intro p w _ h y hy
    rcases List.mem_append.mp hy with hy | hy
    · exact h y hy
    · exact ⟨_, List.mem_singleton.mp hy⟩
  case hsample =>
    intro p w time addr hmem _
    exact absurd (hrec _ hmem) (by simp [RingRecord.isSample])
  case h =>
    intro w hw
    cases hw

theorem afterDrain_frame (m : SpeMonitor) (i : ℕ) (slot : SpeSlot) (area : AuxArea)
    (records : List RingRecord) :
    (m.afterDrain i slot area records).mainBinary = m.mainBinary ∧
      (m.afterDrain i slot area records).moduleMaps = m.moduleMaps ∧
      (m.afterDrain i slot area records).tids = m.tids :=
  (foldl_record _ slot.tid m).1

theorem afterDrain_slotIds {i : ℕ} {slot : SpeSlot} (hslot : m.slots[i]? = some slot)
    (area : AuxArea) (records : List RingRecord) :
    (m.afterDrain i slot area records).slotIds = m.slotIds := by
  obtain ⟨hi, hget⟩ := List.getElem?_eq_some_iff.mp hslot
  have hlen : i < (m.slots.map fun slot => (slot.tid, slot.samplerIndex)).length := by simpa using hi
  have hsame : (slot.tid, slot.samplerIndex) =
      (m.slots.map fun slot => (slot.tid, slot.samplerIndex))[i] := by
    rw [List.getElem_map, hget]
  change (m.slots.set i _).map _ = m.slots.map _
  rw [List.map_set, hsame, List.set_getElem_self]

/-- The only file a drain writes to. -/
theorem afterDrain_files (m : SpeMonitor) (i : ℕ) (slot : SpeSlot) (area : AuxArea)
    (records : List RingRecord) (tid : ℤ) (k : ℕ) :
    (m.afterDrain i slot area records).files tid k =
      m.files tid k ++ if (tid, k) = (slot.tid, slot.samplerIndex) then
        (m.drained slot area records).written else [] := by
  dsimp only [afterDrain]
  by_cases htid : tid = slot.tid
  · subst htid
    rw [Function.update_self]
    by_cases hk : k = slot.samplerIndex
    · subst hk
      rw [Function.update_self, if_pos rfl]
    · rw [Function.update_of_ne hk, if_neg (by simpa using hk), List.append_nil]
  · rw [Function.update_of_ne htid, if_neg (fun h => htid (Prod.ext_iff.mp h).1), List.append_nil]

theorem step_grows {st : SpeStep} (h : m.step exePath st = some m') : Grows exePath m m' := by
  obtain ⟨tid, k, rfl, -, rfl⟩ | ⟨rfl, rfl⟩ | ⟨rfl, rfl⟩ | ⟨realpath, line, rfl, -, rfl⟩ |
    ⟨i, area, records, slot, rfl, -, hslot, rfl⟩ := step_cases h
  · refine ⟨List.prefix_rfl, ?_, id⟩
    simp only [slotIds, List.map_append]
    exact List.prefix_append _ _
  · exact ⟨List.prefix_rfl, List.prefix_rfl, id⟩
  · refine ⟨List.prefix_rfl, List.prefix_rfl, fun hm => ?_⟩
    dsimp only
    rw [hm]
    split_ifs <;> rfl
  · refine ⟨?_, List.prefix_rfl, id⟩
    dsimp only
    rcases snapshot_line_cases realpath m.moduleMaps line with he | ⟨e, he, -⟩
    · rw [he]
    · rw [he]
      exact List.prefix_append _ _
  · obtain ⟨hbin, hmaps, -⟩ := m.afterDrain_frame i slot area records
    refine ⟨hmaps ▸ List.prefix_rfl, ?_, fun hm => hbin.trans hm⟩
    rw [afterDrain_slotIds hslot]

theorem run_grows {steps : List SpeStep} (h : run (step exePath) m steps = some m') :
    Grows exePath m m' :=
  run_invariant (P := Grows exePath m) (fun _ _ _ hg hs => hg.trans (step_grows hs))
    (.refl exePath m) h

theorem consistent_initial : Consistent exePath initial := by
  constructor
  · simp [initial]
  · simp [initial]
  · exact .inl rfl
  · simp [initial]
  · simp [initial, slotIds]

theorem Consistent.step (hc : Consistent exePath m) {st : SpeStep}
    (h : m.step exePath st = some m') : Consistent exePath m' := by
  obtain ⟨tid, k, rfl, htid, rfl⟩ | ⟨rfl, rfl⟩ | ⟨rfl, rfl⟩ | ⟨realpath, line, rfl, hbin, rfl⟩ |
    ⟨i, area, records, slot, rfl, hrec, hslot, rfl⟩ := step_cases h
  · refine ⟨hc.moduleIds, hc.mainRead, hc.mainOr, hc.speOnly, fun id hid => ?_⟩
    simp only [slotIds, List.map_append, List.mem_append, List.map_cons, List.map_nil,
      List.mem_singleton] at hid
    rcases hid with hid | rfl
    · exact hc.tidPos id hid
    · exact htid
  · exact ⟨hc.moduleIds, hc.mainRead, hc.mainOr, hc.speOnly, hc.tidPos⟩
  · refine ⟨hc.moduleIds, fun hne => ?_, ?_, hc.speOnly, hc.tidPos⟩
    · dsimp only at hne ⊢
      rw [hc.mainRead hne]
      split_ifs <;> rfl
    · dsimp only
      split_ifs with hnil
      · exact .inr rfl
      · exact hc.mainOr
  · refine ⟨?_, fun _ => hbin, hc.mainOr, hc.speOnly, hc.tidPos⟩
    dsimp only
    rcases snapshot_line_cases realpath m.moduleMaps line with he | ⟨e, he, hid⟩
    · rw [he]
      exact hc.moduleIds
    · rw [he]
      intro j e' hj
      rw [List.getElem?_append] at hj
      split_ifs at hj with hlt
      · exact hc.moduleIds j e' hj
      · obtain ⟨hj0, rfl⟩ : j - m.moduleMaps.length = 0 ∧ e = e' := by
          rw [List.getElem?_singleton] at hj
          split_ifs at hj with hz
          exact ⟨hz, Option.some.inj hj⟩
        rw [hid]
        congr 1
        omega
  · obtain ⟨hb, hm, -⟩ := m.afterDrain_frame i slot area records
    refine ⟨?_, ?_, ?_, fun tid k w hw => ?_, ?_⟩
    · rw [hm]
      exact hc.moduleIds
    · rw [hm, hb]
      exact hc.mainRead
    · rw [hb]
      exact hc.mainOr
    · rw [afterDrain_files] at hw
      rcases List.mem_append.mp hw with hw | hw
      · exact hc.speOnly tid k w hw
      · split_ifs at hw
        · exact drained_speOnly hrec area w hw
        · cases hw
    · rw [afterDrain_slotIds hslot]
      exact hc.tidPos

theorem run_consistent {steps : List SpeStep}
    (h : run (SpeMonitor.step exePath) initial steps = some m) :
    Consistent exePath m :=
  run_invariant (fun _ _ _ hc hs => hc.step hs) consistent_initial h

/-- A PC that no later mapping covers keeps its key. -/
theorem recordKey_eq_of_grows (hc : Consistent exePath m) (hg : Grows exePath m m') {x : SpeSample}
    (hlate : ∀ e ∈ m'.moduleMaps.drop m.moduleMaps.length, ¬ (e.vmStart ≤ x.pc ∧ x.pc < e.vmEnd))
    (tid : ℤ) : m.recordKey tid x = m'.recordKey tid x := by
  obtain ⟨extra, hextra⟩ := hg.maps
  rw [← hextra, List.drop_left] at hlate
  have hfind : findModuleMap m'.moduleMaps x.pc = findModuleMap m.moduleMaps x.pc := by
    have hnone : extra.find? (fun e => e.vmStart ≤ x.pc ∧ x.pc < e.vmEnd) = none := by
      rw [List.find?_eq_none]
      intro e he
      simpa using hlate e he
    unfold findModuleMap
    rw [← hextra, List.find?_append, hnone, Option.or_none]
  unfold recordKey hotspotKey
  rw [hfind]
  cases hm : findModuleMap m.moduleMaps x.pc with
  | none => rfl
  | some e =>
      have hne : m.moduleMaps ≠ [] := by
        intro hnil
        rw [hnil] at hm
        cases hm
      have hbin := hc.mainRead hne
      rw [hbin, hg.main hbin]

end SpeMonitor

/-! ## Counting along a run -/

/-- Adding to one member of a list without repetition. -/
theorem sum_map_add_single {α : Type*} [DecidableEq α] {l : List α} {a : α} (hnd : l.Nodup)
    (f : α → ℕ) (c : ℕ) :
    (l.map fun b => f b + if b = a then c else 0).sum =
      (l.map f).sum + if a ∈ l then c else 0 := by
  induction l with
  | nil => simp
  | cons b l ih =>
      obtain ⟨hb, hl⟩ := List.nodup_cons.mp hnd
      simp only [List.map_cons, List.sum_cons, ih hl, List.mem_cons]
      by_cases hba : b = a
      · subst hba
        rw [if_pos rfl, if_neg hb, if_pos (.inl rfl)]
        omega
      · rw [if_neg hba]
        by_cases hal : a ∈ l
        · rw [if_pos hal, if_pos (.inr hal)]
          omega
        · rw [if_neg hal, if_neg (not_or.mpr ⟨Ne.symm hba, hal⟩)]
          omega

namespace SpeMonitor

variable {exePath : Text} {m m' : SpeMonitor}

theorem log_concat {steps : List SpeStep} {st : SpeStep} {m₁ : SpeMonitor}
    (h : run (step exePath) m steps = some m₁) (hstep : m₁.step exePath st = some m') :
    log exePath m (steps ++ [st]) = log exePath m steps ++ m₁.stepLog st := by
  induction steps generalizing m with
  | nil =>
      rw [← Option.some.inj h] at hstep ⊢
      simp [log, hstep]
  | cons s steps ih =>
      obtain ⟨m₂, hs, hrest⟩ := exists_of_run_cons h
      rw [List.cons_append, log, log, hs]
      dsimp only
      rw [ih hrest, List.append_assoc]

theorem length_samplesUnder_entriesOf (m : SpeMonitor) (tid t : ℤ) (key : HotspotKey)
    (xs : List SpeSample) :
    (samplesUnder t key (m.entriesOf tid xs)).length =
      if tid = t then xs.countP (fun x => m.recordKey tid x = some key) else 0 := by
  induction xs with
  | nil => simp [entriesOf, samplesUnder]
  | cons x xs ih =>
      unfold entriesOf at ih ⊢
      rw [List.filterMap_cons, List.countP_cons]
      cases hkey : m.recordKey tid x with
      | none => simpa using ih
      | some key' =>
          simp only [Option.map_some]
          rw [samplesUnder_cons]
          dsimp only
          by_cases htid : tid = t
          · subst htid
            rw [if_pos rfl] at ih ⊢
            by_cases hk : key' = key
            · subst hk
              simp [ih]
            · simp [ih, hk]
          · rw [if_neg htid] at ih ⊢
            rw [if_neg fun h => htid h.1, ih]

/-- The samples of a thread's files that the final state would count under a key. -/
def filesCount (final m : SpeMonitor) (ids : List (ℤ × ℕ)) (tid : ℤ) (key : HotspotKey) : ℕ :=
  ((ids.filter fun id => id.1 = tid).map fun id =>
    (speSamples (m.files id.1 id.2)).countP fun x => final.recordKey tid x = some key).sum

end SpeMonitor

/-- No mapping that covers the PC of a sample is added after the sample was decoded. -/
def NoLateMapping (exePath : Text) (steps : List SpeStep) : Prop :=
  ∀ early late m m', steps = early ++ late →
    run (SpeMonitor.step exePath) .initial early = some m →
    run (SpeMonitor.step exePath) .initial steps = some m' →
      ∀ tid k x, .spe x ∈ m.files tid k → ∀ e ∈ m'.moduleMaps.drop m.moduleMaps.length,
        ¬ (e.vmStart ≤ x.pc ∧ x.pc < e.vmEnd)

namespace SpeMonitor

variable {exePath : Text} {m m' final : SpeMonitor}

theorem filesCount_afterDrain {ids : List (ℤ × ℕ)} (hnd : ids.Nodup) {i : ℕ} {slot : SpeSlot}
    (hmem : (slot.tid, slot.samplerIndex) ∈ ids) (area : AuxArea) (records : List RingRecord)
    (tid : ℤ) (key : HotspotKey) :
    filesCount final (m.afterDrain i slot area records) ids tid key =
      filesCount final m ids tid key + if slot.tid = tid then
        (m.drained slot area records).speWritten.countP
          (fun x => final.recordKey tid x = some key) else 0 := by
  have hterm : ∀ id : ℤ × ℕ,
      ((speSamples ((m.afterDrain i slot area records).files id.1 id.2)).countP
        fun x => final.recordKey tid x = some key) =
      ((speSamples (m.files id.1 id.2)).countP fun x => final.recordKey tid x = some key) +
        if id = (slot.tid, slot.samplerIndex) then (m.drained slot area records).speWritten.countP
          (fun x => final.recordKey tid x = some key) else 0 := by
    intro id
    rw [afterDrain_files, speSamples_append, List.countP_append]
    congr 1
    split_ifs
    · rfl
    · rfl
  unfold filesCount
  simp only [hterm]
  rw [sum_map_add_single (hnd.filter _)]
  congr 1
  simp [List.mem_filter, hmem]

/-- The log of a run and its sample files count the same. -/
theorem log_count {steps : List SpeStep}
    (hfull : run (step exePath) initial steps = some final) (hlate : NoLateMapping exePath steps)
    {ids : List (ℤ × ℕ)} (hnd : ids.Nodup) (hids : ∀ id ∈ final.slotIds, id ∈ ids)
    {early late : List SpeStep} (hsplit : steps = early ++ late)
    (hrun : run (step exePath) initial early = some m) (tid : ℤ) (key : HotspotKey) :
    (samplesUnder tid key (log exePath initial early)).length =
      filesCount final m ids tid key := by
  induction early using List.reverseRecOn generalizing late m with
  | nil =>
      rw [← Option.some.inj hrun]
      simp [log, samplesUnder, filesCount, initial, speSamples]
  | append_singleton early st ih =>
      obtain ⟨m₀, hrun₀, hstep⟩ := exists_of_run_concat hrun
      have hih := @ih _ (st :: late) (by rw [hsplit]; simp) hrun₀
      have hgrow : Grows exePath m final := by
        rw [hsplit, run_append, hrun] at hfull
        exact run_grows hfull
      rw [log_concat hrun₀ hstep, samplesUnder_append, List.length_append, hih]
      obtain ⟨_, _, rfl, -, rfl⟩ | ⟨rfl, rfl⟩ | ⟨rfl, rfl⟩ | ⟨_, _, rfl, -, rfl⟩ |
        ⟨i, area, records, slot, rfl, -, hslot, rfl⟩ := step_cases hstep
      · rfl
      · rfl
      · rfl
      · rfl
      · have hid : (slot.tid, slot.samplerIndex) ∈ m₀.slotIds :=
          List.mem_map.mpr ⟨slot, List.mem_of_getElem? hslot, rfl⟩
        have hmem : (slot.tid, slot.samplerIndex) ∈ ids := by
          apply hids
          apply hgrow.slots.subset
          rw [afterDrain_slotIds hslot]
          exact hid
        rw [filesCount_afterDrain hnd hmem]
        simp only [stepLog, hslot]
        rw [length_samplesUnder_entriesOf]
        congr 1
        by_cases htid : slot.tid = tid
        · subst htid
          rw [if_pos rfl, if_pos rfl]
          apply List.countP_congr
          intro x hx
          -- the sample is in its file now, so no later mapping covers its PC
          have hfile : .spe x ∈ (m₀.afterDrain i slot area records).files slot.tid
              slot.samplerIndex := by
            rw [afterDrain_files, if_pos rfl]
            exact List.mem_append_right _ (Sampler.mem_speWritten.mp hx)
          obtain ⟨hbin, hmaps, -⟩ := m₀.afterDrain_frame i slot area records
          have hkey := recordKey_eq_of_grows (run_consistent hrun) hgrow
            (hlate _ late _ final hsplit hrun hfull slot.tid slot.samplerIndex x hfile) slot.tid
          unfold recordKey at hkey ⊢
          rw [hbin, hmaps] at hkey
          rw [hkey]
        · rw [if_neg htid, if_neg htid]

end SpeMonitor

/-! ## A sample on both sides -/

namespace SpeMonitor

variable {exePath : Text} {m : SpeMonitor}

/-- A mapping is the only one with its module number. -/
theorem Consistent.eq_of_moduleId (hc : Consistent exePath m) (hlen : m.moduleMaps.length ≤ 2 ^ 32)
    {e e' : ModuleMapEntry} (he : e ∈ m.moduleMaps) (he' : e' ∈ m.moduleMaps)
    (hid : e.moduleId = e'.moduleId) : e = e' := by
  obtain ⟨i, hi⟩ := List.mem_iff_getElem?.mp he
  obtain ⟨j, hj⟩ := List.mem_iff_getElem?.mp he'
  rw [hc.moduleIds i e hi, hc.moduleIds j e' hj, ← BitVec.toNat_inj, BitVec.toNat_ofNat,
    BitVec.toNat_ofNat] at hid
  have hilt : i < m.moduleMaps.length := (List.getElem?_eq_some_iff.mp hi).1
  have hjlt : j < m.moduleMaps.length := (List.getElem?_eq_some_iff.mp hj).1
  rw [Nat.mod_eq_of_lt (by omega), Nat.mod_eq_of_lt (by omega)] at hid
  rw [hid, hj] at hi
  exact (Option.some.inj hi).symm

/-- The script looks up the same mapping as the monitor. -/
theorem pcToKey_moduleMapLines (pc : U64) :
    pcToKey pc.toNat m.moduleMapLines = (findModuleMap m.moduleMaps pc).map fun e =>
      (e.moduleId.toNat, pc.toNat - e.vmStart.toNat + e.fileOffset.toNat) := by
  unfold pcToKey moduleMapLines findModuleMap
  rw [List.find?_map, Option.map_map]
  rfl

theorem hasFlag_pcValid_iff (x : SpeSample) :
    x.hasFlag pcValid = true ↔ x.view.flags &&& 1 ≠ 0 := by
  have hone : (x.flags &&& pcValid).toNat = x.flags.toNat &&& 1 := BitVec.toNat_and _ _
  rw [SpeSample.hasFlag, decide_eq_true_eq, ne_eq, ← BitVec.toNat_inj, hone]
  rfl

/-- What a counted sample says about its key. -/
theorem exists_of_recordKey {tid : ℤ} {x : SpeSample} {key : HotspotKey}
    (h : m.recordKey tid x = some key) :
    0 < tid ∧ x.pc ≠ 0 ∧ x.hasFlag pcValid = true ∧
      ∃ e, findModuleMap m.moduleMaps x.pc = some e ∧ isMainBinaryModule m.mainBinary e ∧
        key = ⟨e.moduleId, x.pc - e.vmStart + e.fileOffset⟩ := by
  unfold recordKey at h
  split_ifs at h with hskip
  simp only [not_or, not_le, Bool.not_eq_false] at hskip
  exact ⟨hskip.1, hskip.2.1, hskip.2.2, hotspotKey_some h⟩

/-- A record counts for a hotspot just when the monitor counts its sample under the hotspot's key.
The key is one that some sample was counted under: it names a mapping of the main binary. -/
theorem hits_iff (hc : Consistent exePath m) (hlen : m.moduleMaps.length ≤ 2 ^ 32)
    (hwrap : ∀ e ∈ m.moduleMaps, isMainBinaryModule m.mainBinary e → e.NoWrap)
    {h : Hotspot} {tid : ℤ} {key : HotspotKey} {x' : SpeSample}
    (hsome : m.recordKey tid x' = some key) (htid : h.tid = tid)
    (hmod : h.moduleId = key.moduleId.toNat) (hoff : h.pcOffset = key.pcOffset.toNat)
    {t : ℤ} (ht : 0 < t) (x : SpeSample) :
    hits m.moduleMapLines h (some t.natAbs, x.view) = true ↔
      t = tid ∧ m.recordKey tid x = some key := by
  obtain ⟨htid0, hpc', -, e', hfind', hmain', rfl⟩ := exists_of_recordKey hsome
  obtain ⟨he', hin'⟩ := findModuleMap_some hfind'
  have hoff' := pcOffset_toNat (hwrap e' he' hmain') hin'
  have hthread : h.tid = ((t.natAbs : ℕ) : ℤ) ↔ t = tid := by omega
  dsimp only at hmod hoff
  unfold hits
  rw [decide_eq_true_eq, ← hasFlag_pcValid_iff]
  dsimp only [SpeSample.view]
  rw [pcToKey_moduleMapLines]
  constructor
  · rintro ⟨hflag, k, hk, hmatch⟩
    obtain ⟨e, hfind, rfl⟩ := Option.map_eq_some_iff.mp (Option.mem_def.mp hk)
    obtain ⟨he, hin⟩ := findModuleMap_some hfind
    simp only [matchesItem, Option.mem_def, Option.some.injEq, forall_eq', decide_eq_true_eq,
      Prod.mk.injEq] at hmatch
    obtain ⟨⟨hm, ho⟩, hth⟩ := hmatch
    obtain rfl : e = e' :=
      hc.eq_of_moduleId hlen he he' (BitVec.eq_of_toNat_eq (hm.symm.trans hmod))
    have hpceq : x.pc = x'.pc := by
      apply BitVec.eq_of_toNat_eq
      obtain ⟨hlo, -⟩ := hin
      obtain ⟨hlo', -⟩ := hin'
      omega
    refine ⟨hthread.mp hth, ?_⟩
    unfold recordKey hotspotKey
    rw [if_neg, hfind, hpceq]
    · exact if_pos hmain'
    · rw [hpceq, hflag]
      simp only [not_or, not_le, Bool.not_eq_false]
      exact ⟨htid0, hpc', trivial⟩
  · rintro ⟨rfl, hkey⟩
    obtain ⟨-, -, hflag, e, hfind, hmain, hke⟩ := exists_of_recordKey hkey
    obtain ⟨he, hin⟩ := findModuleMap_some hfind
    have hoffe := pcOffset_toNat (hwrap e he hmain) hin
    obtain ⟨hid, hpo⟩ := HotspotKey.mk.inj hke
    rw [hid] at hmod
    rw [hpo] at hoff
    refine ⟨hflag, _, Option.mem_def.mpr (Option.map_eq_some_iff.mpr ⟨e, hfind, rfl⟩), ?_⟩
    simp only [matchesItem, Option.mem_def, Option.some.injEq, forall_eq', decide_eq_true_eq,
      Prod.mk.injEq]
    exact ⟨⟨hmod, by omega⟩, hthread.mpr rfl⟩

/-! ## All samples -/

theorem flatMap_written {ws : List Written} (h : ∀ w ∈ ws, ∃ x, w = .spe x) :
    ws.flatMap Written.bytes = (speSamples ws).flatMap SpeSample.bytes := by
  induction ws with
  | nil => rfl
  | cons w ws ih =>
      rw [List.forall_mem_cons] at h
      obtain ⟨x, rfl⟩ := h.1
      rw [List.flatMap_cons, ih h.2]
      rfl

def fullFileName (base : Text) (id : ℤ × ℕ) : Text :=
  base ++ ".t".toList ++ integer false id.1 ++ ".sample".toList ++ numeral false id.2

/-- The script sees the samples of the run, each with the thread it belongs to. -/
theorem fileRecords_sampleFiles (hc : Consistent exePath m) {base : Text} {ids : List (ℤ × ℕ)}
    (hids : ∀ id ∈ ids, id ∈ m.slotIds) (hfit : ∀ id ∈ ids, (fullFileName base id).length < 128) :
    fileRecords recordView 56 (ids.map (m.sampleFile base)) =
      ids.flatMap fun id => (speSamples (m.files id.1 id.2)).map fun x =>
        (some id.1.natAbs, x.view) := by
  unfold fileRecords
  rw [List.flatMap_map]
  apply List.flatMap_congr
  intro id hid
  unfold sampleFile
  rw [tidFromSamplePath_sampleFileName (hc.tidPos id (hids id hid)).le (hfit id hid),
    flatMap_written (hc.speOnly id.1 id.2),
    records_flatMap (fun x _ => length_bytes x) (by decide), List.map_map]
  apply List.map_congr_left
  intro x _
  rw [Function.comp_apply, recordView_bytes]

/-- Hits of a hotspot over all files. -/
theorem countP_hits (hc : Consistent exePath m) {ids : List (ℤ × ℕ)}
    (hids : ∀ id ∈ ids, id ∈ m.slotIds) {h : Hotspot} {tid : ℤ} {key : HotspotKey}
    (hhits : ∀ t : ℤ, 0 < t → ∀ x, hits m.moduleMapLines h (some t.natAbs, x.view) = true ↔
      t = tid ∧ m.recordKey tid x = some key) :
    (ids.flatMap fun id => (speSamples (m.files id.1 id.2)).map fun x =>
        (some id.1.natAbs, x.view)).countP (hits m.moduleMapLines h) =
      filesCount m m ids tid key := by
  induction ids with
  | nil => rfl
  | cons id ids ih =>
      rw [List.forall_mem_cons] at hids
      have hpos := hc.tidPos id hids.1
      have hrest := ih hids.2
      unfold filesCount at hrest ⊢
      rw [List.flatMap_cons, List.countP_append, hrest, List.countP_map]
      by_cases htid : id.1 = tid
      · rw [List.filter_cons_of_pos (by simpa using htid), List.map_cons, List.sum_cons]
        congr 1
        apply List.countP_congr
        intro x _
        rw [Function.comp_apply, hhits id.1 hpos x, decide_eq_true_eq]
        exact and_iff_right htid
      · rw [List.filter_cons_of_neg (by simpa using htid)]
        have hzero : (speSamples (m.files id.1 id.2)).countP
            (hits m.moduleMapLines h ∘ fun x => (some id.1.natAbs, x.view)) = 0 := by
          rw [List.countP_eq_zero]
          intro x _ hx
          rw [Function.comp_apply] at hx
          exact htid ((hhits id.1 hpos x).mp hx).1
        rw [hzero, Nat.zero_add]

end SpeMonitor

/-! ## Both counts -/

section Agreement

variable {exePath : Text} {steps : List SpeStep} {m : SpeMonitor}

theorem HotspotStats.sampleCount_ofSamples (xs : List SpeSample) :
    (HotspotStats.ofSamples xs).sampleCount = BitVec.ofNat 64 xs.length := by
  have hfold : ∀ st : HotspotStats,
      (xs.foldl .add st).sampleCount = st.sampleCount + BitVec.ofNat 64 xs.length := by
    induction xs with
    | nil =>
        intro st
        exact (BitVec.add_zero _).symm
    | cons x xs ih =>
        intro st
        rw [List.foldl_cons, ih, List.length_cons, Nat.add_comm, BitVec.ofNat_add,
          ← BitVec.add_assoc]
        rfl
  rw [ofSamples, hfold]
  exact BitVec.zero_add _

/-- The samples that a table entry of the final state counts. -/
theorem entry_count (h : run (SpeMonitor.step exePath) .initial steps = some m)
    (hlen : (SpeMonitor.log exePath .initial steps).length < 2 ^ 64) {tid : ℤ} {e : HotspotEntry}
    (he : e ∈ (m.hotspots tid).entries) :
    samplesUnder tid e.1 (SpeMonitor.log exePath .initial steps) ≠ [] ∧
      e.2.sampleCount.toNat =
        (samplesUnder tid e.1 (SpeMonitor.log exePath .initial steps)).length := by
  have hlook : (m.hotspots tid).lookup e.1 = some e.2 := AList.mem_lookup_iff.mpr he
  have hle := (samplesUnder_sublist tid e.1 (SpeMonitor.log exePath .initial steps)).1
  constructor
  · intro hnil
    rw [SpeMonitor.run_hotspots h, hnil] at hlook
    cases hlook
  · rw [SpeMonitor.run_lookup h hlook, HotspotStats.sampleCount_ofSamples, BitVec.toNat_ofNat]
    exact Nat.mod_eq_of_lt (by omega)

/-- A hotspot line names a thread and an entry of its table. -/
theorem SpeMonitor.exists_entry_of_mem_hotspotLines {cfg : SelectionCfg} {l : Hotspot}
    (hl : l ∈ m.hotspotLines cfg) :
    ∃ tid, ∃ e ∈ (m.hotspots tid).entries, l.tid = tid ∧ l.moduleId = e.1.moduleId.toNat ∧
      l.pcOffset = e.1.pcOffset.toNat ∧ l.sampleCount = e.2.sampleCount.toNat := by
  unfold hotspotLines at hl
  obtain ⟨tid, -, hl⟩ := List.mem_flatMap.mp hl
  obtain ⟨p, hp, rfl⟩ := List.mem_map.mp hl
  obtain ⟨e, he, v, hs⟩ := exists_entry_of_mem_collect cfg m.moduleMaps tid (m.hotspots tid)
    (List.fst_mem_of_mem_zipIdx hp)
  refine ⟨tid, e, he, ?_⟩
  unfold Hotspot.ofSummary
  rw [hs]
  exact ⟨rfl, rfl, rfl, rfl⟩

theorem analyzeSamples_eq (files : List (Text × List U8)) (modules : List ModuleMap)
    (hotspots : List Hotspot) :
    analyzeSamples files sampleRecordFields 56 modules hotspots =
      .ok (files.foldl (analyzeFile recordView 56 modules) (hotspots.map .fresh, .zero)) := by
  have hpc : fieldIndex sampleRecordFields "pc" = some 0 := by decide
  have hva : fieldIndex sampleRecordFields "data_va" = some 1 := by decide
  have hflags : fieldIndex sampleRecordFields "flags" = some 6 := by decide
  unfold analyzeSamples
  rw [if_neg (by decide), hpc, hva, hflags]
  rfl

/-- The script finds for every hotspot line the number of samples that the line says, unless a
mapping that covers the PC of a sample was added after the sample was decoded. Module numbers and
sample counts have not wrapped, and the mappings of the main binary lie inside the 64-bit space. -/
theorem offline_counts_agree (exePath : Text) (steps : List SpeStep) (m : SpeMonitor)
    (cfg : SelectionCfg) (base : Text) (ids : List (ℤ × ℕ))
    (hrun : run (SpeMonitor.step exePath) .initial steps = some m)
    (hlate : NoLateMapping exePath steps)
    (hwrap : ∀ e ∈ m.moduleMaps, isMainBinaryModule m.mainBinary e → e.NoWrap)
    (hmodules : m.moduleMaps.length ≤ 2 ^ 32)
    (hsamples : (SpeMonitor.log exePath .initial steps).length < 2 ^ 64)
    (hids : ids.Perm m.fileIds)
    (hfit : ∀ id ∈ ids, (SpeMonitor.fullFileName base id).length < 128) :
    ∃ items totals,
      analyzeSamples (ids.map (m.sampleFile base)) sampleRecordFields 56 m.moduleMapLines
        (m.hotspotLines cfg) = .ok (items, totals) ∧
      items.map HotspotVaStats.hotspot = m.hotspotLines cfg ∧
      ∀ item ∈ items, item.matchedSamples = item.hotspot.sampleCount ∧
        item.vaValidSamples + item.vaInvalidSamples = item.hotspot.sampleCount := by
  have hc := SpeMonitor.run_consistent hrun
  have hnd : ids.Nodup := hids.nodup_iff.mpr (List.nodup_dedup _)
  have hmem : ∀ id, id ∈ ids ↔ id ∈ m.slotIds := fun id => hids.mem_iff.trans List.mem_dedup
  -- each item starts at zero and ends with the hits of its hotspot
  obtain ⟨items, totals, hfold⟩ : ∃ items totals,
      (ids.map (m.sampleFile base)).foldl (analyzeFile recordView 56 m.moduleMapLines)
        ((m.hotspotLines cfg).map .fresh, .zero) = (items, totals) := ⟨_, _, rfl⟩
  have hitems : items = (m.hotspotLines cfg).map fun l =>
      (fileRecords recordView 56 (ids.map (m.sampleFile base))).foldl
        (countIfHit m.moduleMapLines) (.fresh l) := by
    have hfst : _ = items := congrArg Prod.fst hfold
    rw [← hfst, foldl_analyzeFile_stats, List.map_map]
    rfl
  refine ⟨items, totals, by rw [analyzeSamples_eq, hfold], ?_, fun item hitem => ?_⟩
  · rw [hitems, List.map_map]
    calc _ = (m.hotspotLines cfg).map id :=
          List.map_congr_left fun l _ => (foldl_countIfHit m.moduleMapLines _ (.fresh l)).1
      _ = _ := List.map_id _
  · rw [hitems] at hitem
    obtain ⟨l, hl, rfl⟩ := List.mem_map.mp hitem
    obtain ⟨hh, hmatched, hva⟩ := foldl_countIfHit m.moduleMapLines
      (fileRecords recordView 56 (ids.map (m.sampleFile base))) (.fresh l)
    rw [hh, hmatched, hva]
    obtain ⟨tid, e, he, htid, hmod, hoff, hcount⟩ := SpeMonitor.exists_entry_of_mem_hotspotLines hl
    obtain ⟨hne, hst⟩ := entry_count hrun hsamples he
    have hlog := SpeMonitor.log_count hrun hlate hnd (fun id hid => (hmem id).mpr hid)
      (List.append_nil steps).symm hrun tid e.1
    -- some sample was counted under the key
    obtain ⟨x', hx'⟩ : ∃ x', m.recordKey tid x' = some e.1 := by
      have hpos : SpeMonitor.filesCount m m ids tid e.1 ≠ 0 := by
        rw [← hlog]
        simpa using hne
      obtain ⟨c, hcmem, hc0⟩ := List.exists_mem_ne_zero_of_sum_ne_zero hpos
      obtain ⟨id, -, rfl⟩ := List.mem_map.mp hcmem
      obtain ⟨x, -, hx⟩ := List.countP_pos_iff.mp (Nat.pos_of_ne_zero hc0)
      exact ⟨x, of_decide_eq_true hx⟩
    have hcountP : (fileRecords recordView 56 (ids.map (m.sampleFile base))).countP
        (hits m.moduleMapLines l) = l.sampleCount := by
      rw [SpeMonitor.fileRecords_sampleFiles hc (fun id hid => (hmem id).mp hid) hfit,
        SpeMonitor.countP_hits hc (fun id hid => (hmem id).mp hid)
          fun t ht x => SpeMonitor.hits_iff hc hmodules hwrap hx' htid hmod hoff ht x,
        ← hlog, hcount, hst]
    change 0 + List.countP (hits m.moduleMapLines l) _ = l.sampleCount ∧
      0 + 0 + List.countP (hits m.moduleMapLines l) _ = l.sampleCount
    rw [hcountP]
    exact ⟨Nat.zero_add _, Nat.zero_add _⟩

end Agreement

/-- One sample of a mapped PC, on its hotspot line and counted again. -/
theorem offline_counts_agree_small :
    let steps : List SpeStep := [.register 7 0, .openWindow, .readMainBinary,
      .readMapsLine some "00400000-00500000 r-xp 00000000 08:01 77 /opt/app".toList,
      .drain 0 ⟨fun i => [0xB0, 0x10, 0x00, 0x40, 0, 0, 0, 0, 0, 0x01].getD i 0, 64⟩ [.aux 0 10 0]]
    ∃ m, run (SpeMonitor.step "/opt/app".toList) .initial steps = some m ∧
      (m.hotspotLines ⟨8, 1, 0⟩).map Hotspot.sampleCount = [1] ∧
      ∃ items totals,
        analyzeSamples (m.fileIds.map (m.sampleFile "rd".toList)) sampleRecordFields 56
          m.moduleMapLines (m.hotspotLines ⟨8, 1, 0⟩) = .ok (items, totals) ∧
        items.map HotspotVaStats.hotspot = m.hotspotLines ⟨8, 1, 0⟩ ∧
        ∀ item ∈ items, item.matchedSamples = item.hotspot.sampleCount ∧
          item.vaValidSamples + item.vaInvalidSamples = item.hotspot.sampleCount := by
  intro steps
  obtain ⟨m, hm⟩ : ∃ m, run (SpeMonitor.step "/opt/app".toList) .initial steps = some m := ⟨_, rfl⟩
  -- what the run leaves behind, evaluated
  have hfacts : (run (SpeMonitor.step "/opt/app".toList) .initial steps).map (fun m =>
      (m.moduleMaps, m.fileIds, (m.hotspotLines ⟨8, 1, 0⟩).map Hotspot.sampleCount)) =
      some ([⟨0, 0x400000, 0x500000, 0, "/opt/app".toList⟩], [(7, 0)], [1]) := by
    decide +kernel
  rw [hm, Option.map_some, Option.some.injEq, Prod.mk.injEq, Prod.mk.injEq] at hfacts
  obtain ⟨hmaps, hids, hlines⟩ := hfacts
  refine ⟨m, hm, hlines, offline_counts_agree _ steps m _ _ m.fileIds hm ?_ ?_ ?_ ?_ (.refl _) ?_⟩
  · intro early late m₀ m' hsplit hrun hfull tid k x hx e he
    obtain rfl : m = m' := Option.some.inj (hm.symm.trans hfull)
    -- no sample before the drain, no new mapping after it
    have htake : early = steps.take early.length := by rw [hsplit, List.take_left]
    by_cases hlen : early.length < 5
    · have hnone : (run (SpeMonitor.step "/opt/app".toList) .initial early).map
          SpeMonitor.files = some fun _ _ => [] := by
        rw [htake]
        interval_cases early.length
        all_goals rfl
      rw [hrun, Option.map_some, Option.some.injEq] at hnone
      rw [hnone] at hx
      cases hx
    · rw [List.take_of_length_le (by simp only [steps, List.length_cons, List.length_nil]; omega)]
        at htake
      rw [htake, hm] at hrun
      rw [Option.some.inj hrun, List.drop_length] at he
      cases he
  · intro e he _
    rw [hmaps, List.mem_singleton] at he
    subst he
    exact ⟨by decide, by decide⟩
  · rw [hmaps]
    decide
  · decide +kernel
  · rw [hids]
    decide +kernel

end RdSpeTool
