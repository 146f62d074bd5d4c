import RdSpeTool.ByteRecords
import RdSpeTool.HotspotSelection

/-!
# Hotspots counted again from the sample files

`analyze_hotspot_va.py` reads the sample files and the module maps of a run and counts the samples
of each hotspot a second time. Python integers are unbounded, a record is 56 bytes, and the thread
comes from the name of the file.
-/

namespace RdSpeTool

open CText ByteRecords Schedule

/-! ## What the run leaves behind -/

def wordBytes (v : U64) : List U8 := leBytes 8 v.toNat

def SpeSample.bytes (x : SpeSample) : List U8 :=
  [x.pc, x.dataVa, x.latTotal, x.latIssue, x.latXlat, x.eventBits, x.flags].flatMap wordBytes

def Written.bytes : Written → List U8
  | .sample time addr => [time, addr].flatMap wordBytes
  | .spe x => x.bytes

/-- The name of a sample file, written into a buffer of 128 bytes. -/
def sampleFileName (base : Text) (tid : ℤ) (samplerIndex : ℕ) : Text :=
  (base ++ ".t".toList ++ integer false tid ++ ".sample".toList ++ numeral false samplerIndex).take 127

def sampleRecordFields : List Text :=
  ["pc".toList, "data_va".toList, "lat_total".toList, "lat_issue".toList, "lat_xlat".toList,
    "event_bits".toList, "flags".toList]

structure Hotspot where
  tid : ℤ
  rank : ℕ
  sampleCount : ℕ
  moduleId : ℕ
  pcOffset : ℕ
  path : Text
  deriving DecidableEq

def Hotspot.ofSummary (p : HotspotSummary × ℕ) : Hotspot :=
  ⟨p.1.tid, p.2 + 1, p.1.sampleCount.toNat, p.1.moduleId.toNat, p.1.pcOffset.toNat, p.1.path⟩

structure ModuleMap where
  moduleId : ℕ
  path : Text
  vmStart : ℕ
  vmEnd : ℕ
  fileOffset : ℕ
  deriving DecidableEq

def ModuleMap.ofEntry (e : ModuleMapEntry) : ModuleMap :=
  ⟨e.moduleId.toNat, e.path, e.vmStart.toNat, e.vmEnd.toNat, e.fileOffset.toNat⟩

namespace SpeMonitor

variable (m : SpeMonitor)

def hotspotLines (cfg : SelectionCfg) : List Hotspot :=
  m.tids.flatMap fun tid =>
    (collectHotspotsForThread cfg m.moduleMaps tid (m.hotspots tid)).zipIdx.map Hotspot.ofSummary

def moduleMapLines : List ModuleMap := m.moduleMaps.map .ofEntry

def sampleFile (base : Text) (id : ℤ × ℕ) : Text × List U8 :=
  (sampleFileName base id.1 id.2, (m.files id.1 id.2).flatMap Written.bytes)

def fileIds : List (ℤ × ℕ) := (m.slots.map fun slot => (slot.tid, slot.samplerIndex)).dedup

end SpeMonitor

/-! ## The script -/

structure HotspotVaStats where
  hotspot : Hotspot
  matchedSamples : ℕ
  pcValidSamples : ℕ
  vaValidSamples : ℕ
  vaInvalidSamples : ℕ
  vaCounts : ℕ → ℕ

def HotspotVaStats.fresh (h : Hotspot) : HotspotVaStats := ⟨h, 0, 0, 0, 0, fun _ => 0⟩

structure AnalysisTotals where
  sampleFiles : ℕ
  sampleRecords : ℕ
  pcValidRecords : ℕ
  dataVaValidRecords : ℕ
  matchedHotspotRecords : ℕ
  shortOrMisalignedFiles : ℕ
  unmappedPcRecords : ℕ
  deriving DecidableEq

def AnalysisTotals.zero : AnalysisTotals := ⟨0, 0, 0, 0, 0, 0, 0⟩

def isDigit (c : Char) : Bool := digitValue c < 10

def splitTrailingDigits (s : Text) : Text × Text :=
  ((s.reverse.dropWhile isDigit).reverse, (s.reverse.takeWhile isDigit).reverse)

def stripEnd (ending s : Text) : Option Text :=
  if ending <:+ s then some (s.take (s.length - ending.length)) else none

def pathName (path : Text) : Text := (path.reverse.takeWhile (· ≠ '/')).reverse

/-- The pattern `\.t(\d+)\.sample\d+$` in a file name, read from its end. -/
def tidFromSamplePath (path : Text) : Option ℕ :=
  let name := pathName path
  let name := if name.getLast? = some '\n' then name.dropLast else name
  let sampler := splitTrailingDigits name
  if sampler.2 = [] then none
  else
    match stripEnd ".sample".toList sampler.1 with
    | none => none
    | some front =>
        let tid := splitTrailingDigits front
        if tid.2 = [] ∨ ¬ ".t".toList <:+ tid.1 then none else some (digitsValue 10 tid.2)

def pcToKey (pc : ℕ) (modules : List ModuleMap) : Option (ℕ × ℕ) :=
  (modules.find? fun m => m.vmStart ≤ pc ∧ pc < m.vmEnd).map fun m =>
    (m.moduleId, pc - m.vmStart + m.fileOffset)

/-- Position of a field name; of equal names the last one counts. -/
def fieldIndex (fields : List Text) (name : String) : Option ℕ :=
  ((fields.zipIdx.filter fun p => p.1 = name.toList).getLast?).map Prod.snd

/-- `unpack_from` with one 64-bit number per field. -/
def unpackRecord (fields : List Text) (record : List U8) : List ℕ :=
  (List.range fields.length).map fun i => leValue ((record.drop (8 * i)).take 8)

/-- What the loop over the records takes from one record. -/
structure SampleView where
  pc : ℕ
  dataVa : ℕ
  flags : ℕ

/-- Whether a record of a file counts for an item. Items are found by thread, module and offset, and
without the thread if the file name has none. -/
def matchesItem (tid : Option ℕ) (key : ℕ × ℕ) (h : Hotspot) : Bool :=
  (h.moduleId, h.pcOffset) = key ∧ ∀ t ∈ tid, h.tid = (t : ℤ)

def HotspotVaStats.count (v : SampleView) (item : HotspotVaStats) : HotspotVaStats :=
  let item := { item with
    matchedSamples := item.matchedSamples + 1
    pcValidSamples := item.pcValidSamples + 1 }
  if v.flags &&& 64 ≠ 0 then
    { item with
        vaValidSamples := item.vaValidSamples + 1
        vaCounts := Function.update item.vaCounts v.dataVa (item.vaCounts v.dataVa + 1) }
  else { item with vaInvalidSamples := item.vaInvalidSamples + 1 }

abbrev AnalysisState := List HotspotVaStats × AnalysisTotals

def analyzeRecord (modules : List ModuleMap) (tid : Option ℕ) (s : AnalysisState)
    (v : SampleView) : AnalysisState :=
  let totals := { s.2 with sampleRecords := s.2.sampleRecords + 1 }
  if v.flags &&& 1 = 0 then (s.1, totals)
  else
    let totals := { totals with
      pcValidRecords := totals.pcValidRecords + 1
      dataVaValidRecords := totals.dataVaValidRecords + if v.flags &&& 64 ≠ 0 then 1 else 0 }
    match pcToKey v.pc modules with
    | none => (s.1, { totals with unmappedPcRecords := totals.unmappedPcRecords + 1 })
    | some key =>
        if s.1.any fun item => matchesItem tid key item.hotspot then
          (s.1.map fun item => if matchesItem tid key item.hotspot then item.count v else item,
            { totals with matchedHotspotRecords := totals.matchedHotspotRecords + 1 })
        else (s.1, totals)

def analyzeFile (view : List U8 → SampleView) (recordBytes : ℕ) (modules : List ModuleMap)
    (s : AnalysisState) (file : Text × List U8) : AnalysisState :=
  let totals := { s.2 with
    sampleFiles := s.2.sampleFiles + 1
    shortOrMisalignedFiles := s.2.shortOrMisalignedFiles +
      if file.2.length % recordBytes ≠ 0 then 1 else 0 }
  (records recordBytes file.2).foldl
    (fun s record => analyzeRecord modules (tidFromSamplePath file.1) s (view record)) (s.1, totals)

def analyzeSamples (files : List (Text × List U8)) (fields : List Text) (recordBytes : ℕ)
    (modules : List ModuleMap) (hotspots : List Hotspot) : Except String AnalysisState :=
  if fields.length * 8 ≠ recordBytes then
    throw ("sample_record_bytes=" ++ toString recordBytes ++ " does not match " ++
      toString fields.length ++ " 64-bit fields")
  else
    match fieldIndex fields "pc", fieldIndex fields "data_va", fieldIndex fields "flags" with
    | some pc, some dataVa, some flags =>
        let view := fun record =>
          let values := unpackRecord fields record
          ⟨values.getD pc 0, values.getD dataVa 0, values.getD flags 0⟩
        pure (files.foldl (analyzeFile view recordBytes modules) (hotspots.map .fresh, .zero))
    | _, _, _ =>
        throw ("sample format does not contain required VA fields: " ++
          ",".intercalate (["data_va", "flags", "pc"].filter fun name =>
            (fieldIndex fields name).isNone) ++
          "; rerun stage1 with a VA-enabled librd.so")

/-! ## The script as a count -/

section Counting

variable (modules : List ModuleMap)

def hits (h : Hotspot) (r : Option ℕ × SampleView) : Bool :=
  r.2.flags &&& 1 ≠ 0 ∧ ∃ key ∈ pcToKey r.2.pc modules, matchesItem r.1 key h = true

def countIfHit (item : HotspotVaStats) (r : Option ℕ × SampleView) : HotspotVaStats :=
  if hits modules item.hotspot r then item.count r.2 else item

theorem analyzeRecord_stats (tid : Option ℕ) (s : AnalysisState) (v : SampleView) :
    (analyzeRecord modules tid s v).1 = s.1.map (countIfHit modules · (tid, v)) := by
  have hsame : (∀ item ∈ s.1, hits modules item.hotspot (tid, v) = false) →
      s.1 = s.1.map (countIfHit modules · (tid, v)) := by
    intro h
    calc s.1 = s.1.map id := (List.map_id _).symm
      _ = _ := by
        apply List.map_congr_left
        intro item hitem
        rw [countIfHit, h item hitem]
        rfl
  unfold analyzeRecord
  dsimp only
  by_cases hpc : v.flags &&& 1 = 0
  · rw [if_pos hpc]
    apply hsame
    intro item _
    simp [hits, hpc]
  · rw [if_neg hpc]
    cases hkey : pcToKey v.pc modules with
    | none =>
        apply hsame
        intro item _
        simp [hits, hkey]
    | some key =>
        have hhits : ∀ h, hits modules h (tid, v) = matchesItem tid key h := by
          intro h
          rw [Bool.eq_iff_iff, hits, decide_eq_true_eq, hkey]
          constructor
          · rintro ⟨-, key', hkey', hm⟩
            cases hkey'
            exact hm
          · exact fun hm => ⟨hpc, key, rfl, hm⟩
        dsimp only
        by_cases hany : s.1.any fun item => matchesItem tid key item.hotspot
        · rw [if_pos hany]
          apply List.map_congr_left
          intro item _
          rw [countIfHit, hhits]
        · rw [if_neg hany]
          apply hsame
          intro item hitem
          rw [hhits, ← Bool.not_eq_true]
          exact fun hm => hany (List.any_eq_true.mpr ⟨item, hitem, hm⟩)

theorem foldl_analyzeRecord_stats (tid : Option ℕ) (vs : List SampleView) (s : AnalysisState) :
    (vs.foldl (fun s v => analyzeRecord modules tid s v) s).1 =
      s.1.map fun item => (vs.map fun v => (tid, v)).foldl (countIfHit modules) item := by
  induction vs generalizing s with
  | nil => exact (List.map_id _).symm
  | cons v vs ih =>
      rw [List.foldl_cons, ih, analyzeRecord_stats, List.map_map]
      rfl

def fileRecords (view : List U8 → SampleView) (recordBytes : ℕ) (files : List (Text × List U8)) :
    List (Option ℕ × SampleView) :=
  files.flatMap fun file =>
    (records recordBytes file.2).map fun record => (tidFromSamplePath file.1, view record)

theorem foldl_analyzeFile_stats (view : List U8 → SampleView) (recordBytes : ℕ)
    (files : List (Text × List U8)) (s : AnalysisState) :
    (files.foldl (analyzeFile view recordBytes modules) s).1 =
      s.1.map fun item => (fileRecords view recordBytes files).foldl (countIfHit modules) item := by
  induction files generalizing s with
  | nil => exact (List.map_id _).symm
  | cons file files ih =>
      have hfile : (analyzeFile view recordBytes modules s file).1 = s.1.map fun item =>
          (fileRecords view recordBytes [file]).foldl (countIfHit modules) item := by
        unfold analyzeFile
        dsimp only
        rw [← List.foldl_map, foldl_analyzeRecord_stats, List.map_map]
        simp [fileRecords, Function.comp_def]
      rw [List.foldl_cons, ih, hfile, List.map_map]
      apply List.map_congr_left
      intro item _
      simp only [Function.comp_apply, fileRecords, List.flatMap_cons, List.flatMap_nil,
        List.append_nil, List.foldl_append]

/-- An item ends with the number of its hits, each with a valid or an invalid data address. -/
theorem foldl_countIfHit (rs : List (Option ℕ × SampleView)) (item : HotspotVaStats) :
    let item' := rs.foldl (countIfHit modules) item
    item'.hotspot = item.hotspot ∧
      item'.matchedSamples = item.matchedSamples + rs.countP (hits modules item.hotspot) ∧
      item'.vaValidSamples + item'.vaInvalidSamples =
        item.vaValidSamples + item.vaInvalidSamples + rs.countP (hits modules item.hotspot) := by
  induction rs generalizing item with
  | nil => exact ⟨rfl, rfl, rfl⟩
  | cons r rs ih =>
      obtain ⟨hh, hm, hv⟩ := ih (countIfHit modules item r)
      rw [List.foldl_cons, List.countP_cons]
      dsimp only at hh hm hv ⊢
      rw [hh, hm, hv]
      unfold countIfHit
      by_cases hhit : hits modules item.hotspot r = true
      · have hcount : (item.count r.2).hotspot = item.hotspot ∧
            (item.count r.2).matchedSamples = item.matchedSamples + 1 ∧
            (item.count r.2).vaValidSamples + (item.count r.2).vaInvalidSamples =
              item.vaValidSamples + item.vaInvalidSamples + 1 := by
          unfold HotspotVaStats.count
          dsimp only
          split_ifs
          · exact ⟨rfl, rfl, by dsimp only; omega⟩
          · exact ⟨rfl, rfl, by dsimp only; omega⟩
        obtain ⟨h1, h2, h3⟩ := hcount
        rw [if_pos hhit, if_pos hhit, h1, h2, h3]
        exact ⟨rfl, by omega, by omega⟩
      · rw [if_neg hhit, if_neg hhit]
        exact ⟨rfl, by omega, by omega⟩

end Counting

/-! ## Reading the files back -/

theorem unpackRecord_words {fields : List Text} {words : List U64}
    (h : words.length = fields.length) :
    unpackRecord fields (words.flatMap wordBytes) = words.map BitVec.toNat := by
  have hlen : ∀ v ∈ words, (wordBytes v).length = 8 := fun v _ => length_leBytes 8 _
  have hrec := records_flatMap hlen (by decide)
  unfold records at hrec
  rw [length_flatMap hlen, Nat.mul_div_cancel _ (by decide)] at hrec
  have hvalue : ∀ v : U64, leValue (wordBytes v) = v.toNat := fun v => leValue_leBytes v.isLt
  calc unpackRecord fields (words.flatMap wordBytes)
      = ((List.range words.length).map fun i =>
          ((words.flatMap wordBytes).drop (i * 8)).take 8).map leValue := by
        rw [List.map_map, unpackRecord, ← h]
        simp only [Function.comp_def, Nat.mul_comm]
    _ = words.map BitVec.toNat := by
        rw [hrec, List.map_map]
        exact List.map_congr_left fun v _ => hvalue v

def SpeSample.view (x : SpeSample) : SampleView := ⟨x.pc.toNat, x.dataVa.toNat, x.flags.toNat⟩

def recordView (record : List U8) : SampleView :=
  let values := unpackRecord sampleRecordFields record
  ⟨values.getD 0 0, values.getD 1 0, values.getD 6 0⟩

theorem recordView_bytes (x : SpeSample) : recordView x.bytes = x.view := by
  unfold recordView SpeSample.bytes
  rw [unpackRecord_words (by rfl)]
  rfl

theorem length_bytes (x : SpeSample) : x.bytes.length = 56 := by
  unfold SpeSample.bytes
  rw [length_flatMap fun v _ => length_leBytes 8 v.toNat]
  rfl

/-- The digits at the end of a text are told from what stands in front of them. -/
theorem splitTrailingDigits_append (front : Text) {ds : Text} {c : Char} (hc : isDigit c = false)
    (hds : ∀ d ∈ ds, isDigit d = true) :
    splitTrailingDigits (front ++ [c] ++ ds) = (front ++ [c], ds) := by
  have hrev : ∀ d ∈ ds.reverse, isDigit d = true := fun d hd => hds d (List.mem_reverse.mp hd)
  unfold splitTrailingDigits
  simp only [List.reverse_append, List.reverse_cons, List.reverse_nil, List.nil_append,
    List.singleton_append]
  rw [List.dropWhile_append_of_pos hrev, List.takeWhile_append_of_pos hrev,
    List.dropWhile_cons_of_neg (by simp [hc]), List.takeWhile_cons_of_neg (by simp [hc])]
  simp

theorem stripEnd_append (front ending : Text) : stripEnd ending (front ++ ending) = some front := by
  unfold stripEnd
  rw [if_pos (List.suffix_append _ _), List.length_append, Nat.add_sub_cancel, List.take_left]

theorem pathName_append {s : Text} (hs : '/' ∉ s) (base : Text) :
    pathName (base ++ s) = pathName base ++ s := by
  have hall : ∀ c ∈ s.reverse, decide (c ≠ '/') = true := by
    intro c hc
    rw [decide_eq_true_eq]
    rintro rfl
    exact hs (List.mem_reverse.mp hc)
  unfold pathName
  rw [List.reverse_append, List.takeWhile_append_of_pos hall, List.reverse_append,
    List.reverse_reverse]

theorem isDigit_toDigits {n : ℕ} {c : Char} (hc : c ∈ Nat.toDigits 10 n) : isDigit c = true := by
  rw [isDigit, decide_eq_true_eq]
  exact digitValue_lt_of_mem (by decide) (by decide) hc

/-- The thread is read back from the name of its file. -/
theorem tidFromSamplePath_sampleFileName {base : Text} {tid : ℤ} {k : ℕ} (htid : 0 ≤ tid)
    (hfit : (base ++ ".t".toList ++ integer false tid ++ ".sample".toList ++
      numeral false k).length < 128) :
    tidFromSamplePath (sampleFileName base tid k) = some tid.natAbs := by
  have hint : integer false tid = Nat.toDigits 10 tid.natAbs := if_neg (by omega)
  have hname : sampleFileName base tid k = base ++ (".t".toList ++ Nat.toDigits 10 tid.natAbs ++
      ".sample".toList ++ Nat.toDigits 10 k) := by
    unfold sampleFileName
    rw [List.take_of_length_le (by omega), hint]
    simp [numeral]
  have hslash : '/' ∉ ".t".toList ++ Nat.toDigits 10 tid.natAbs ++ ".sample".toList ++
      Nat.toDigits 10 k := by
    have hdigit : ∀ n, '/' ∉ Nat.toDigits 10 n := by
      intro n hmem
      have hd := isDigit_toDigits hmem
      revert hd
      decide
    simp only [List.mem_append, not_or]
    exact ⟨⟨⟨by decide, hdigit _⟩, by decide⟩, hdigit _⟩
  have hlast : (pathName base ++ (".t".toList ++ Nat.toDigits 10 tid.natAbs ++ ".sample".toList ++
      Nat.toDigits 10 k)).getLast? ≠ some '\n' := by
    rw [← List.append_assoc, List.getLast?_append_of_ne_nil _ Nat.toDigits_ne_nil]
    intro hl
    have hd := isDigit_toDigits (List.mem_of_getLast? hl)
    revert hd
    decide
  -- the digits of the sampler, the word before them, the digits of the thread
  have hsampler : splitTrailingDigits (pathName base ++ (".t".toList ++
      Nat.toDigits 10 tid.natAbs ++ ".sample".toList ++ Nat.toDigits 10 k)) =
      (pathName base ++ ".t".toList ++ Nat.toDigits 10 tid.natAbs ++ ".sample".toList,
        Nat.toDigits 10 k) := by
    have h := splitTrailingDigits_append
      (pathName base ++ ".t".toList ++ Nat.toDigits 10 tid.natAbs ++ ".sampl".toList) (c := 'e')
      (by decide) (fun d hd => isDigit_toDigits (n := k) hd)
    simpa using h
  have htdigits : splitTrailingDigits (pathName base ++ ".t".toList ++
      Nat.toDigits 10 tid.natAbs) = (pathName base ++ ".t".toList, Nat.toDigits 10 tid.natAbs) := by
    have h := splitTrailingDigits_append (pathName base ++ ".".toList) (c := 't')
      (by decide) (fun d hd => isDigit_toDigits (n := tid.natAbs) hd)
    simpa using h
  unfold tidFromSamplePath
  dsimp only
  rw [hname, pathName_append hslash, if_neg hlast, hsampler]
  dsimp only
  rw [if_neg Nat.toDigits_ne_nil, stripEnd_append]
  dsimp only
  rw [htdigits]
  dsimp only
  rw [if_neg, digitsValue_toDigits (by decide) (by decide)]
  rw [not_or, not_not]
  exact ⟨Nat.toDigits_ne_nil, List.suffix_append _ _⟩

end RdSpeTool
