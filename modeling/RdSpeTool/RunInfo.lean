import RdSpeTool.FrameText
import RdSpeTool.HotspotManifest
import RdSpeTool.ProfilerSetup

/-!
# The run information file

`write_info` prints the settings, the mappings, the targets and the counters of a run as lines of
keys and values; `resolve_dwarf_pairs.py` reads back the mode, the binary, the mappings and the load
bias.
-/

namespace RdSpeTool

open CText PyText Resolver

/-! ## Writing -/

def snapshotRuntimeModuleMaps (realpath : Text → Option Text) (lines : List Text) :
    List ModuleMapEntry :=
  lines.foldl (fun modules line =>
    match parseMapsLine line with
    | none => modules
    | some m =>
        let path := normalizeFilesystemPath realpath (trimAsciiSpace m.path)
        if path = [] then modules
        else modules ++ [⟨BitVec.ofNat 32 modules.length, m.vmStart, m.vmEnd, m.fileOffset, path⟩])
    []

def callchainModeName : CallchainMode → Text
  | .off => "off".toList
  | .fp => "fp".toList
  | .dwarf => "dwarf".toList

def decimalText (n : ℕ) : Text := formatInt 10 n

def hexField (v : U64) : Text := hexText v.toNat

def tabFields (fields : List Text) : Text := ['\t'].intercalate fields

def moduleFields (e : ModuleMapEntry) : List Text :=
  [decimalText e.moduleId.toNat, e.path, hexField e.vmStart, hexField e.vmEnd,
    hexField e.fileOffset]

def targetFields (i : ℕ) (t : HotTarget) : List Text :=
  [decimalText i, hexField t.pcOffset, hexField t.absPc, decimalText t.aggregatedSamples.toNat,
    t.mnemonic, t.operands]

def rejectedFields (t : RejectedTarget) : List Text :=
  [hexField t.pcOffset, decimalText t.aggregatedSamples.toNat, t.reason.toList]

def threadFields (stats : ThreadStats) : List Text :=
  [formatInt 10 stats.tid, formatInt 10 stats.cpu, decimalText stats.candidateSamples,
    decimalText stats.reservoirSeen, decimalText stats.reservoirAccepted,
    decimalText stats.reservoirRejected, decimalText stats.hits, decimalText stats.evictions,
    decimalText stats.dropped, decimalText stats.pairHistUsed, decimalText stats.pairHistDropped,
    decimalText stats.contextUsed, decimalText stats.contextDropped,
    decimalText stats.callchainFailed, decimalText stats.callchainTruncated,
    decimalText stats.dwarfEventUsed, decimalText stats.dwarfEventDropped,
    decimalText stats.dwarfStackCopyFailed, decimalText stats.dwarfStackBytes]

def instructionSupport : Text :=
  ("aarch64 objdump-parsed ldr/str/ldur/stur with [base], [base,#imm], " ++
    "[base,index\x7b,extend #shift\x7d]").toList

def moduleKey : Text := "module_map".toList

def targetKey : Text := "target".toList

def rejectedKey : Text := "rejected_target".toList

def threadKey : Text := "thread".toList

section Writer

variable (q : ConfiguredRd) (mainBinary : Text) (modules : List ModuleMapEntry) (r : Report)

/-- The lines in front of the mappings. -/
def settingFields : List (Text × Text) :=
  [("mode".toList, "targeted_rd".toList),
    ("targeted_rd_backend".toList, "kernel_module".toList),
    ("targeted_rd_seed_source".toList, "execute_breakpoint".toList),
    ("targeted_rd_rd_source".toList, "kernel_perf_event_read_value".toList),
    ("targeted_rd_binary_patch".toList, "0".toList),
    ("hist_format".toList, "log2_only".toList),
    ("pair_hist_present".toList, "1".toList),
    ("pair_hist_key".toList, "seed_pc_offset,seed_context_id,reuse_pc,reuse_context_id".toList),
    ("pair_hist_reuse_pc_identity".toList, "raw_va".toList),
    ("pair_hist_capacity".toList, decimalText maxPairHists),
    ("callchain_present".toList, if q.callchainMode = .off then ['0'] else ['1']),
    ("callchain_mode".toList, callchainModeName q.callchainMode),
    ("callchain_max_depth".toList, decimalText maxCallchainDepth),
    ("context_capacity".toList, decimalText maxContexts)] ++
  (if q.callchainMode = .dwarf then
    [("dwarf_unwind_present".toList, "1".toList),
      ("dwarf_stack_bytes".toList, decimalText q.settings.dwarfStackBytes.toNat),
      ("dwarf_event_capacity".toList, decimalText q.settings.dwarfEventCapacity.toNat)]
  else []) ++
  [("window_mode".toList,
    if q.explicitWindowSeen then "explicit".toList else "auto_fallback".toList)] ++
  (if q.autoWindowDiscardedOnFirstExplicit then
    [("auto_window_discarded_on_first_explicit".toList, "1".toList)]
  else []) ++
  [("target_file".toList, q.settings.targetFile),
    ("main_binary".toList, mainBinary),
    ("pc_identity".toList, "raw_va".toList),
    ("module_map_version".toList, "1".toList),
    ("module_map_scope".toList, "targeted_rd_current_run".toList),
    ("module_map_fields".toList, "module_id,path,vm_start,vm_end,file_offset".toList),
    ("module_map_count".toList, decimalText modules.length)]

def moduleLines : List (Text × Text) := modules.map fun e => (moduleKey, tabFields (moduleFields e))

/-- The lines between the mappings and the targets. -/
def limitFields : List (Text × Text) :=
  [("instruction_support".toList, instructionSupport),
    ("rd_event".toList, q.settings.rdEventName),
    ("candidate_source".toList, "sparse_execute_breakpoint_samples".toList),
    ("breakpoint_sample_period".toList, decimalText q.settings.bpSamplePeriod.toNat),
    ("bp_capacity".toList, decimalText q.settings.bpCapacity.toNat),
    ("reservoir_capacity".toList, decimalText q.settings.watchpointCapacity.toNat),
    ("watchpoint_count".toList, decimalText q.settings.watchpointCapacity.toNat),
    ("target_filter_policy".toList, "drop_unsupported_hotspots".toList),
    ("requested_target_count".toList, decimalText q.loaded.candidateTargetCount),
    ("candidate_target_count".toList, decimalText q.loaded.candidateTargetCount),
    ("capacity_truncated_target_count".toList, decimalText q.loaded.capacityTruncatedTargetCount),
    ("rejected_target_count".toList, decimalText q.loaded.rejectedTargets.length),
    ("cpu_binding".toList, "exclusive_process_local".toList),
    ("target_count".toList, decimalText q.loaded.targets.length)]

def targetLines : List (Text × Text) :=
  q.loaded.targets.mapIdx fun i t => (targetKey, tabFields (targetFields i t))

def rejectedLines : List (Text × Text) :=
  q.loaded.rejectedTargets.map fun t => (rejectedKey, tabFields (rejectedFields t))

def threadLines : List (Text × Text) :=
  ("thread_count".toList, decimalText r.lines.length) ::
    r.lines.map fun stats => (threadKey, tabFields (threadFields stats))

def totalFields : List (Text × Text) :=
  [("seed_samples".toList, decimalText r.totals.seeds),
    ("watchpoint_hits".toList, decimalText r.totals.hits),
    ("evicted_pending_samples".toList, decimalText r.totals.evictions),
    ("dropped_pending_samples".toList, decimalText r.totals.dropped),
    ("pair_hist_used".toList, decimalText r.totals.pairHistUsed),
    ("pair_hist_dropped".toList, decimalText r.totals.pairHistDropped),
    ("context_used".toList, decimalText r.totals.contextUsed),
    ("context_dropped".toList, decimalText r.totals.contextDropped),
    ("callchain_failed".toList, decimalText r.totals.callchainFailed),
    ("callchain_truncated".toList, decimalText r.totals.callchainTruncated),
    ("dwarf_event_used".toList, decimalText r.totals.dwarfEventUsed),
    ("dwarf_event_dropped".toList, decimalText r.totals.dwarfEventDropped),
    ("dwarf_stack_copy_failed".toList, decimalText r.totals.dwarfStackCopyFailed)]

def infoFields : List (Text × Text) :=
  settingFields q mainBinary modules ++ moduleLines modules ++ limitFields q ++ targetLines q ++
    rejectedLines q ++ threadLines r ++ totalFields r

def infoText : Text := unlines ((infoFields q mainBinary modules r).map headerLine)

end Writer

/-! ## Reading -/

def readInfoLine (out : AList fun _ : Text => Text) (raw : Text) : AList fun _ : Text => Text :=
  let line := strip raw
  if line ≠ [] ∧ '=' ∈ line then out.insert (splitOnce '=' line).1 (splitOnce '=' line).2 else out

def parseInfo (text : Text) : AList fun _ : Text => Text := (fileLines text).foldl readInfoLine ∅

inductive InfoError
  | noTarget
  | invalidInt (base : ℕ) (s : Text)
  deriving DecidableEq

def InfoError.what (path : String) : InfoError → String
  | noTarget => "no target= lines found in " ++ path
  | invalidInt base s =>
      "invalid literal for int() with base " ++ toString base ++ ": " ++ String.ofList s

def infoInt (base : ℕ) (s : Text) : Except InfoError ℤ :=
  match parseInt base s with
  | some i => .ok i
  | none => .error (.invalidInt base s)

def loadBiasFrom : List Text → Except InfoError ℤ
  | [] => .error .noTarget
  | line :: lines =>
      if (targetKey ++ ['=']).isPrefixOf line then
        let parts := (strip line).splitOn '\t'
        if parts.length ≥ 3 then do
          let abs ← infoInt 16 (parts.getD 2 [])
          let off ← infoInt 16 (parts.getD 1 [])
          pure (abs - off)
        else loadBiasFrom lines
      else loadBiasFrom lines

def loadBiasFromInfo (text : Text) : Except InfoError ℤ := loadBiasFrom (fileLines text)

def moduleOfParts (parts : List Text) : Except InfoError ModuleEntry := do
  let moduleId ← infoInt 10 (parts.getD 0 [])
  let vmStart ← infoInt 16 (parts.getD 2 [])
  let vmEnd ← infoInt 16 (parts.getD 3 [])
  let fileOffset ← infoInt 16 (parts.getD 4 [])
  pure ⟨moduleId, parts.getD 1 [], vmStart, vmEnd, fileOffset⟩

def readModuleLine (modules : List ModuleEntry) (line : Text) :
    Except InfoError (List ModuleEntry) :=
  if (moduleKey ++ ['=']).isPrefixOf line then
    let parts := (splitOnce '=' (strip line)).2.splitOn '\t'
    if parts.length < 5 then .ok modules
    else (moduleOfParts parts).map fun m => modules ++ [m]
  else .ok modules

def sortModules (modules : List ModuleEntry) : List ModuleEntry :=
  modules.insertionSort fun a b => toLex (a.vmStart, a.vmEnd) ≤ toLex (b.vmStart, b.vmEnd)

def parseModuleMap (text : Text) : Except InfoError (List ModuleEntry) :=
  ((fileLines text).foldlM readModuleLine []).map sortModules

/-! ## Lines -/

def NoBreak (s : Text) : Prop := '\n' ∉ s ∧ '\r' ∉ s

structure CleanKey (key : Text) : Prop where
  ne_nil : key ≠ []
  visible : ∀ c ∈ key, c ≠ '=' ∧ PyText.isspace c = false

structure CleanField (f : Text × Text) : Prop where
  key : CleanKey f.1
  value : NoBreak f.2

def rstrip (s : Text) : Text := (s.reverse.dropWhile PyText.isspace).reverse

theorem rstrip_eq {s : Text} (h : ∀ c ∈ s.getLast?, PyText.isspace c = false) : rstrip s = s := by
  unfold rstrip
  cases hs : s.reverse with
  | nil =>
      rw [List.reverse_eq_nil_iff] at hs
      rw [hs]
      rfl
  | cons c t =>
      have hlast : s.getLast? = some c := by
        rw [List.getLast?_eq_head?_reverse, hs]
        rfl
      rw [List.dropWhile_cons_of_neg (by simp [h c hlast]), ← hs, List.reverse_reverse]

namespace CleanField

variable {f : Text × Text} (h : CleanField f)

include h

theorem noBreak : '\n' ∉ headerLine f ∧ '\r' ∉ headerLine f := by
  have hkey : ∀ c ∈ f.1, c ≠ '\n' ∧ c ≠ '\r' := by
    intro c hc
    have hspace := (h.key.visible c hc).2
    constructor
    · rintro rfl
      exact absurd hspace (by decide)
    · rintro rfl
      exact absurd hspace (by decide)
  unfold headerLine
  simp only [List.mem_append, List.mem_cons, not_or]
  exact ⟨⟨fun hc => (hkey _ hc).1 rfl, by decide, h.value.1⟩,
    ⟨fun hc => (hkey _ hc).2 rfl, by decide, h.value.2⟩⟩

theorem strip_headerLine : strip (headerLine f) = f.1 ++ '=' :: rstrip f.2 := by
  obtain ⟨c, key, hkey⟩ := List.exists_cons_of_ne_nil h.key.ne_nil
  have hfront : (headerLine f).dropWhile PyText.isspace = headerLine f := by
    have hc := (h.key.visible c (hkey ▸ List.mem_cons_self)).2
    unfold headerLine
    rw [hkey, List.cons_append, List.dropWhile_cons_of_neg (by simp [hc])]
  unfold strip
  rw [hfront]
  unfold headerLine rstrip
  have hrev : (f.1 ++ '=' :: f.2).reverse = f.2.reverse ++ '=' :: f.1.reverse := by simp
  rw [hrev, List.dropWhile_append]
  split_ifs with hblank
  · rw [List.isEmpty_iff] at hblank
    rw [hblank, List.dropWhile_cons_of_neg (by decide)]
    simp
  · simp

theorem splitOnce_headerLine :
    splitOnce '=' (strip (headerLine f)) = (f.1, rstrip f.2) := by
  rw [h.strip_headerLine]
  exact splitOnce_append (fun hmem => (h.key.visible _ hmem).1 rfl) _

theorem readInfoLine_headerLine (out : AList fun _ : Text => Text) :
    readInfoLine out (headerLine f) = out.insert f.1 (rstrip f.2) := by
  unfold readInfoLine
  dsimp only
  rw [h.splitOnce_headerLine, if_pos]
  rw [h.strip_headerLine]
  exact ⟨List.append_ne_nil_of_right_ne_nil _ (List.cons_ne_nil _ _), by simp⟩

/-- Only its own key opens the line of a field. -/
theorem isPrefixOf_headerLine {key : Text} (hkey : CleanKey key) :
    (key ++ ['=']).isPrefixOf (headerLine f) = true ↔ f.1 = key := by
  rw [List.isPrefixOf_iff_prefix]
  constructor
  · rintro ⟨rest, hrest⟩
    rw [List.append_assoc, List.singleton_append] at hrest
    have hsplit := congrArg (splitOnce '=') hrest
    unfold headerLine at hsplit
    rw [splitOnce_append (fun hmem => (hkey.visible _ hmem).1 rfl),
      splitOnce_append (fun hmem => (h.key.visible _ hmem).1 rfl)] at hsplit
    exact (Prod.mk.inj hsplit).1.symm
  · rintro rfl
    exact ⟨f.2, by simp [headerLine]⟩

end CleanField

theorem fileLines_unlines {fields : List (Text × Text)} (h : ∀ f ∈ fields, CleanField f) :
    fileLines (unlines (fields.map headerLine)) = fields.map headerLine := by
  have hflat : unlines (fields.map headerLine) =
      fields.flatMap fun f => headerLine f ++ ['\n'] := by
    unfold unlines
    rw [List.flatMap_map]
  rw [hflat]
  exact fileLines_flatMap fun f hf => (h f hf).noBreak

/-- The last line of a key gives its value. -/
theorem lookup_parseInfo {fields : List (Text × Text)} (h : ∀ f ∈ fields, CleanField f)
    (key : Text) : (parseInfo (unlines (fields.map headerLine))).lookup key =
      ((fields.filter fun f => f.1 = key).getLast?).map fun f => rstrip f.2 := by
  unfold parseInfo
  rw [fileLines_unlines h]
  induction fields using List.reverseRecOn with
  | nil => rfl
  | append_singleton fields f ih =>
      have hf := h f (by simp)
      rw [List.map_append, List.foldl_append, List.map_singleton, List.foldl_cons, List.foldl_nil,
        hf.readInfoLine_headerLine, List.filter_append]
      by_cases hkey : f.1 = key
      · rw [hkey, AList.lookup_insert, List.filter_cons_of_pos (by simp [hkey]), List.filter_nil,
          List.getLast?_concat]
        rfl
      · rw [AList.lookup_insert_ne (Ne.symm hkey), ih fun g hg => h g (List.mem_append_left _ hg),
          List.filter_cons_of_neg (by simp [hkey]), List.filter_nil, List.append_nil]

/-! ## Mappings -/

def ModuleMapEntry.resolved (e : ModuleMapEntry) : ModuleEntry :=
  ⟨e.moduleId.toNat, e.path, e.vmStart.toNat, e.vmEnd.toNat, e.fileOffset.toNat⟩

theorem infoInt_decimalText (n : ℕ) : infoInt 10 (decimalText n) = .ok (n : ℤ) := by
  unfold infoInt decimalText
  rw [parseInt_formatInt (.inl rfl)]

theorem infoInt_hexField (v : U64) : infoInt 16 (hexField v) = .ok (v.toNat : ℤ) := by
  unfold infoInt hexField hexText
  rw [parseInt_hex]

theorem visible_decimalText {n : ℕ} {c : Char} (hc : c ∈ decimalText n) :
    32 < c.toNat ∧ c.toNat < 128 :=
  formatInt_visible (.inl rfl) hc

theorem visible_hexField {v : U64} {c : Char} (hc : c ∈ hexField v) :
    32 < c.toNat ∧ c.toNat < 128 := by
  unfold hexField hexText at hc
  rw [List.mem_cons, List.mem_cons] at hc
  rcases hc with rfl | rfl | hc
  · decide
  · decide
  · exact formatInt_visible (.inr rfl) hc

theorem cleanText_decimalText (n : ℕ) : CleanText (decimalText n) :=
  cleanText_of_visible fun _ hc => visible_decimalText hc

theorem cleanText_hexField (v : U64) : CleanText (hexField v) :=
  cleanText_of_visible fun _ hc => visible_hexField hc

theorem CleanText.noBreak {s : Text} (h : CleanText s) : NoBreak s := ⟨h.newline, h.cr⟩

theorem noBreak_tabFields {fields : List Text} (h : ∀ f ∈ fields, NoBreak f) :
    NoBreak (tabFields fields) := by
  constructor
  · intro hc
    rcases mem_intercalate hc with h0 | ⟨f, hf, hc⟩
    · exact absurd h0 (by decide)
    · exact (h f hf).1 hc
  · intro hc
    rcases mem_intercalate hc with h0 | ⟨f, hf, hc⟩
    · exact absurd h0 (by decide)
    · exact (h f hf).2 hc

theorem cleanText_moduleFields {e : ModuleMapEntry} (h : CleanText e.path) :
    ∀ f ∈ moduleFields e, CleanText f := by
  unfold moduleFields
  simp only [List.forall_mem_cons, cleanText_decimalText, cleanText_hexField, h, true_and,
    List.not_mem_nil, false_implies, implies_true]

theorem rstrip_moduleFields (e : ModuleMapEntry) :
    rstrip (tabFields (moduleFields e)) = tabFields (moduleFields e) := by
  apply rstrip_eq
  intro c hc
  have hne : hexField e.fileOffset ≠ [] := List.cons_ne_nil _ _
  have htail : tabFields (moduleFields e) = tabFields ((moduleFields e).take 4) ++
      '\t' :: hexField e.fileOffset := by
    simp [tabFields, moduleFields, List.intercalate_cons_cons]
  rw [htail, List.getLast?_append_of_ne_nil _ (List.cons_ne_nil _ _),
    List.getLast?_cons_of_ne_nil hne] at hc
  obtain ⟨h1, h2⟩ := visible_hexField (List.mem_of_getLast? hc)
  exact isspace_of_ascii h1 h2

theorem moduleOfParts_moduleFields (e : ModuleMapEntry) :
    moduleOfParts (moduleFields e) = .ok e.resolved := by
  unfold moduleOfParts moduleFields
  simp only [List.getD_cons_zero, List.getD_cons_succ, infoInt_decimalText, infoInt_hexField,
    bind, Except.bind, pure, Except.pure]
  rfl

section Readers

theorem cleanKey_of_all {key : Text} (hne : key ≠ [])
    (h : key.all (fun c => c ≠ '=' ∧ PyText.isspace c = false) = true) : CleanKey key :=
  ⟨hne, fun c hc => of_decide_eq_true (List.all_eq_true.mp h c hc)⟩

theorem cleanKey_moduleKey : CleanKey moduleKey := cleanKey_of_all (by decide) (by decide)

theorem cleanKey_targetKey : CleanKey targetKey := cleanKey_of_all (by decide) (by decide)

theorem readModuleLine_other {f : Text × Text} (h : CleanField f) (hkey : f.1 ≠ moduleKey)
    (modules : List ModuleEntry) : readModuleLine modules (headerLine f) = .ok modules := by
  unfold readModuleLine
  rw [if_neg fun hpre => hkey ((h.isPrefixOf_headerLine cleanKey_moduleKey).mp hpre)]

theorem readModuleLine_module {e : ModuleMapEntry} (h : CleanText e.path)
    (modules : List ModuleEntry) :
    readModuleLine modules (headerLine (moduleKey, tabFields (moduleFields e))) =
      .ok (modules ++ [e.resolved]) := by
  have hclean : CleanField (moduleKey, tabFields (moduleFields e)) :=
    ⟨cleanKey_moduleKey, noBreak_tabFields fun f hf => (cleanText_moduleFields h f hf).noBreak⟩
  have hsplit : (tabFields (moduleFields e)).splitOn '\t' = moduleFields e := by
    apply List.splitOn_intercalate
    · exact fun f hf => (cleanText_moduleFields h f hf).tab
    · exact List.cons_ne_nil _ _
  unfold readModuleLine
  rw [if_pos ((hclean.isPrefixOf_headerLine cleanKey_moduleKey).mpr rfl), hclean.splitOnce_headerLine]
  dsimp only
  rw [rstrip_moduleFields, hsplit, if_neg (by simp [moduleFields]), moduleOfParts_moduleFields]
  rfl

theorem foldlM_readModuleLine_other {fields : List (Text × Text)} (h : ∀ f ∈ fields, CleanField f)
    (hkey : ∀ f ∈ fields, f.1 ≠ moduleKey) (modules : List ModuleEntry) :
    (fields.map headerLine).foldlM readModuleLine modules = .ok modules := by
  induction fields with
  | nil => rfl
  | cons f fields ih =>
      rw [List.forall_mem_cons] at h hkey
      rw [List.map_cons, List.foldlM_cons, readModuleLine_other h.1 hkey.1]
      exact ih h.2 hkey.2

theorem foldlM_readModuleLine_modules {modules : List ModuleMapEntry}
    (h : ∀ e ∈ modules, CleanText e.path) (before : List ModuleEntry) :
    ((moduleLines modules).map headerLine).foldlM readModuleLine before =
      .ok (before ++ modules.map ModuleMapEntry.resolved) := by
  induction modules generalizing before with
  | nil => exact congrArg Except.ok (List.append_nil before).symm
  | cons e modules ih =>
      rw [List.forall_mem_cons] at h
      have hrest := ih h.2 (before ++ [e.resolved])
      unfold moduleLines at hrest ⊢
      rw [List.map_cons, List.map_cons, List.foldlM_cons, readModuleLine_module h.1]
      change List.foldlM readModuleLine (before ++ [e.resolved]) _ = _
      rw [hrest, List.map_cons, List.append_assoc, List.singleton_append]

/-- White space at the end does not reach over visible text. -/
theorem rstrip_append {s t : Text} {c : Char} (hc : c ∈ t) (hv : PyText.isspace c = false) :
    rstrip (s ++ t) = s ++ rstrip t := by
  have hne : ((t.reverse).dropWhile PyText.isspace).isEmpty = false := by
    rw [List.isEmpty_eq_false_iff]
    intro hnil
    rw [List.dropWhile_eq_nil_iff] at hnil
    exact absurd (hnil c (List.mem_reverse.mpr hc)) (by simp [hv])
  unfold rstrip
  rw [List.reverse_append, List.dropWhile_append, hne]
  simp

theorem splitOn_append {sep : Char} {s : Text} (h : sep ∉ s) (t : Text) :
    (s ++ sep :: t).splitOn sep = s :: t.splitOn sep := by
  rw [List.splitOn_eq_splitOnP, List.splitOn_eq_splitOnP]
  apply List.splitOnP_append_cons_of_forall_mem
  · intro c hc
    rw [beq_eq_false_iff_ne]
    rintro rfl
    exact h hc
  · exact beq_self_eq_true sep

theorem loadBiasFrom_other {fields : List (Text × Text)} (h : ∀ f ∈ fields, CleanField f)
    (hkey : ∀ f ∈ fields, f.1 ≠ targetKey) (rest : List Text) :
    loadBiasFrom (fields.map headerLine ++ rest) = loadBiasFrom rest := by
  induction fields with
  | nil => rfl
  | cons f fields ih =>
      rw [List.forall_mem_cons] at h hkey
      rw [List.map_cons, List.cons_append, loadBiasFrom,
        if_neg fun hpre => hkey.1 ((h.1.isPrefixOf_headerLine cleanKey_targetKey).mp hpre),
        ih h.2 hkey.2]

/-- The first target gives the load bias. -/
theorem loadBiasFrom_target {t : HotTarget} (hmnemonic : NoBreak t.mnemonic)
    (hoperands : NoBreak t.operands) (i : ℕ) (rest : List Text) :
    loadBiasFrom (headerLine (targetKey, tabFields (targetFields i t)) :: rest) =
      .ok ((t.absPc.toNat : ℤ) - t.pcOffset.toNat) := by
  have hnb : ∀ f ∈ targetFields i t, NoBreak f := by
    unfold targetFields
    simp only [List.forall_mem_cons, (cleanText_decimalText _).noBreak,
      (cleanText_hexField _).noBreak, hmnemonic, hoperands, true_and, List.not_mem_nil,
      false_implies, implies_true]
  have hclean : CleanField (targetKey, tabFields (targetFields i t)) :=
    ⟨cleanKey_targetKey, noBreak_tabFields hnb⟩
  let tail := tabFields [decimalText t.aggregatedSamples.toNat, t.mnemonic, t.operands]
  obtain ⟨c, samples, hsamples⟩ :=
    List.exists_cons_of_ne_nil (formatInt_ne_nil 10 (t.aggregatedSamples.toNat : ℤ))
  have hmem : c ∈ '\t' :: tail := by
    have hd : decimalText t.aggregatedSamples.toNat = c :: samples := hsamples
    simp [tail, tabFields, List.intercalate_cons_cons, hd]
  have hv : PyText.isspace c = false := by
    have hc : c ∈ decimalText t.aggregatedSamples.toNat := by
      unfold decimalText
      rw [hsamples]
      exact List.mem_cons_self
    obtain ⟨h1, h2⟩ := visible_decimalText hc
    exact isspace_of_ascii h1 h2
  have hfields : tabFields (targetFields i t) = (decimalText i ++ '\t' :: (hexField t.pcOffset ++
      '\t' :: hexField t.absPc)) ++ '\t' :: tail := by
    simp [tail, tabFields, targetFields, List.intercalate_cons_cons]
  have htail : ∃ u, rstrip ('\t' :: tail) = '\t' :: u := by
    have htab := @rstrip_append ['\t'] tail c ((List.mem_cons.mp hmem).resolve_left fun h0 => by
      rw [h0] at hv
      exact absurd hv (by decide)) hv
    exact ⟨rstrip tail, htab⟩
  obtain ⟨u, hu⟩ := htail
  have hstrip : strip (headerLine (targetKey, tabFields (targetFields i t))) =
      (targetKey ++ '=' :: decimalText i) ++ '\t' :: (hexField t.pcOffset ++
        '\t' :: (hexField t.absPc ++ '\t' :: u)) := by
    rw [hclean.strip_headerLine]
    dsimp only
    rw [hfields, rstrip_append hmem hv, hu]
    simp
  have hfirst : '\t' ∉ targetKey ++ '=' :: decimalText i := by
    rw [List.mem_append, List.mem_cons, not_or, not_or]
    exact ⟨by decide, by decide, (cleanText_decimalText i).tab⟩
  rw [loadBiasFrom, if_pos ((hclean.isPrefixOf_headerLine cleanKey_targetKey).mpr rfl), hstrip,
    splitOn_append hfirst, splitOn_append (cleanText_hexField t.pcOffset).tab,
    splitOn_append (cleanText_hexField t.absPc).tab]
  dsimp only
  rw [if_pos (by simp only [List.length_cons]; omega)]
  simp only [List.getD_cons_zero, List.getD_cons_succ, infoInt_hexField, bind, Except.bind, pure,
    Except.pure]

end Readers

/-! ## Single keys -/

def repeatedKeys : List Text := [moduleKey, targetKey, rejectedKey, threadKey]

/-- The keys that open one line, in a run with or without stack copies and a discarded window. -/
def singleKeys (dwarf discarded : Bool) : List Text :=
  (["mode", "targeted_rd_backend", "targeted_rd_seed_source", "targeted_rd_rd_source",
    "targeted_rd_binary_patch", "hist_format", "pair_hist_present", "pair_hist_key",
    "pair_hist_reuse_pc_identity", "pair_hist_capacity", "callchain_present", "callchain_mode",
    "callchain_max_depth", "context_capacity"] ++
    (if dwarf then ["dwarf_unwind_present", "dwarf_stack_bytes", "dwarf_event_capacity"] else []) ++
    ["window_mode"] ++
    (if discarded then ["auto_window_discarded_on_first_explicit"] else []) ++
    ["target_file", "main_binary", "pc_identity", "module_map_version", "module_map_scope",
      "module_map_fields", "module_map_count", "instruction_support", "rd_event",
      "candidate_source", "breakpoint_sample_period", "bp_capacity", "reservoir_capacity",
      "watchpoint_count", "target_filter_policy", "requested_target_count",
      "candidate_target_count", "capacity_truncated_target_count", "rejected_target_count",
      "cpu_binding", "target_count", "thread_count", "seed_samples", "watchpoint_hits",
      "evicted_pending_samples", "dropped_pending_samples", "pair_hist_used", "pair_hist_dropped",
      "context_used", "context_dropped", "callchain_failed", "callchain_truncated",
      "dwarf_event_used", "dwarf_event_dropped", "dwarf_stack_copy_failed"]).map String.toList

theorem singleKeys_spec : ∀ dwarf discarded : Bool, (singleKeys dwarf discarded).Nodup ∧
    ∀ key ∈ singleKeys dwarf discarded, key ∉ repeatedKeys ∧ key ≠ [] ∧
      key.all (fun c => c ≠ '=' ∧ PyText.isspace c = false) = true := by
  decide +kernel

section Keys

variable (q : ConfiguredRd) (mainBinary : Text) (modules : List ModuleMapEntry) (r : Report)

def singleFields : List (Text × Text) :=
  settingFields q mainBinary modules ++ limitFields q ++
    ("thread_count".toList, decimalText r.lines.length) :: totalFields r

theorem singleFields_keys : (singleFields q mainBinary modules r).map Prod.fst =
    singleKeys (decide (q.callchainMode = .dwarf)) q.autoWindowDiscardedOnFirstExplicit := by
  unfold singleFields settingFields singleKeys
  by_cases hdwarf : q.callchainMode = .dwarf
  · rw [if_pos hdwarf, decide_eq_true hdwarf]
    cases q.autoWindowDiscardedOnFirstExplicit <;> rfl
  · rw [if_neg hdwarf, decide_eq_false hdwarf]
    cases q.autoWindowDiscardedOnFirstExplicit <;> rfl

variable {q mainBinary modules r}

theorem filter_infoFields {key : Text} (h : key ∉ repeatedKeys) :
    (infoFields q mainBinary modules r).filter (fun f => f.1 = key) =
      (singleFields q mainBinary modules r).filter fun f => f.1 = key := by
  simp only [repeatedKeys, List.mem_cons, List.not_mem_nil, or_false, not_or] at h
  obtain ⟨hmodule, htarget, hrejected, hthread⟩ := h
  have hnone : ∀ fields : List (Text × Text), (∀ f ∈ fields, f.1 ≠ key) →
      fields.filter (fun f => f.1 = key) = [] := by
    intro fields hf
    rw [List.filter_eq_nil_iff]
    intro f hmem heq
    exact hf f hmem (of_decide_eq_true heq)
  have hmodules := hnone (moduleLines modules) fun f hf => by
    obtain ⟨e, -, rfl⟩ := List.mem_map.mp hf
    exact Ne.symm hmodule
  have htargets := hnone (targetLines q) fun f hf => by
    obtain ⟨i, hi, rfl⟩ := List.mem_mapIdx.mp hf
    exact Ne.symm htarget
  have hrejects := hnone (rejectedLines q) fun f hf => by
    obtain ⟨t, -, rfl⟩ := List.mem_map.mp hf
    exact Ne.symm hrejected
  have hthreads : (threadLines r).filter (fun f => f.1 = key) =
      [("thread_count".toList, decimalText r.lines.length)].filter fun f => f.1 = key := by
    have hlines := hnone (r.lines.map fun stats => (threadKey, tabFields (threadFields stats)))
      fun f hf => by
        obtain ⟨stats, -, rfl⟩ := List.mem_map.mp hf
        exact Ne.symm hthread
    unfold threadLines
    rw [← List.singleton_append, List.filter_append, hlines, List.append_nil]
  unfold infoFields singleFields
  rw [← List.singleton_append, List.filter_append, List.filter_append, List.filter_append,
    List.filter_append, List.filter_append, List.filter_append, List.filter_append,
    List.filter_append, List.filter_append, hmodules, htargets, hrejects, hthreads, List.append_nil,
    List.append_nil, List.append_nil, List.append_assoc]

theorem filter_singleFields {f : Text × Text} (h : f ∈ singleFields q mainBinary modules r) :
    (singleFields q mainBinary modules r).filter (fun g => g.1 = f.1) = [f] := by
  have hnd : ((singleFields q mainBinary modules r).map Prod.fst).Nodup := by
    rw [singleFields_keys]
    exact (singleKeys_spec _ _).1
  generalize singleFields q mainBinary modules r = fields at h hnd
  induction fields with
  | nil => cases h
  | cons g fields ih =>
      rw [List.map_cons, List.nodup_cons] at hnd
      rcases List.mem_cons.mp h with rfl | h
      · rw [List.filter_cons_of_pos (by simp), List.filter_eq_nil_iff.mpr]
        intro g hg heq
        exact hnd.1 (of_decide_eq_true heq ▸ List.mem_map_of_mem hg)
      · have hne : g.1 ≠ f.1 := fun he => hnd.1 (he ▸ List.mem_map_of_mem h)
        rw [List.filter_cons_of_neg (by simpa using hne), ih h hnd.2]

end Keys

/-! ## The whole file -/

/-- Texts that stay on their lines and in their fields, and a binary that does not end in white
space. -/
structure CleanInfo (q : ConfiguredRd) (mainBinary : Text) (modules : List ModuleMapEntry) :
    Prop where
  targetFile : NoBreak q.settings.targetFile
  rdEventName : NoBreak q.settings.rdEventName
  binary : NoBreak mainBinary
  binaryEnd : ∀ c ∈ mainBinary.getLast?, PyText.isspace c = false
  mappings : ∀ e ∈ modules, CleanText e.path
  targets : ∀ t ∈ q.loaded.targets, NoBreak t.mnemonic ∧ NoBreak t.operands
  rejected : ∀ t ∈ q.loaded.rejectedTargets, NoBreak t.reason.toList

instance (s : Text) : Decidable (NoBreak s) := inferInstanceAs (Decidable (_ ∧ _))

section Whole

variable {q : ConfiguredRd} {mainBinary : Text} {modules : List ModuleMapEntry} {r : Report}

theorem noBreak_decimalText (n : ℕ) : NoBreak (decimalText n) := (cleanText_decimalText n).noBreak

theorem cleanField_singleFields (h : CleanInfo q mainBinary modules) :
    ∀ f ∈ singleFields q mainBinary modules r, CleanField f := by
  have hvalue : ∀ f ∈ singleFields q mainBinary modules r, NoBreak f.2 := by
    have hmode : NoBreak (callchainModeName q.callchainMode) := by
      cases q.callchainMode <;> decide
    have hpresent : NoBreak (if q.callchainMode = .off then ['0'] else ['1']) := by
      split_ifs <;> decide
    have hwindow : NoBreak (if q.explicitWindowSeen then "explicit".toList
        else "auto_fallback".toList) := by
      split_ifs <;> decide
    have hdwarf : ∀ f ∈ (if q.callchainMode = .dwarf then
        [("dwarf_unwind_present".toList, "1".toList),
          ("dwarf_stack_bytes".toList, decimalText q.settings.dwarfStackBytes.toNat),
          ("dwarf_event_capacity".toList, decimalText q.settings.dwarfEventCapacity.toNat)]
        else []), NoBreak f.2 := by
      split_ifs
      · simp only [List.forall_mem_cons, noBreak_decimalText, List.not_mem_nil, false_implies,
          implies_true, and_true]
        decide
      · exact fun f hf => nomatch hf
    have hdiscarded : ∀ f ∈ (if q.autoWindowDiscardedOnFirstExplicit then
        [("auto_window_discarded_on_first_explicit".toList, "1".toList)] else []),
        NoBreak f.2 := by
      split_ifs
      · simp only [List.forall_mem_singleton]
        decide
      · exact fun f hf => nomatch hf
    unfold singleFields settingFields limitFields totalFields
    simp only [List.forall_mem_append, List.forall_mem_cons, noBreak_decimalText, hmode, hpresent,
      hwindow, h.targetFile, h.rdEventName, h.binary, List.not_mem_nil, false_implies,
      implies_true, and_true, true_and]
    exact ⟨⟨⟨⟨by decide, hdwarf⟩, hdiscarded⟩, by decide⟩, by decide⟩
  intro f hf
  refine ⟨?_, hvalue f hf⟩
  have hmem : f.1 ∈ singleKeys (decide (q.callchainMode = .dwarf))
      q.autoWindowDiscardedOnFirstExplicit := by
    rw [← singleFields_keys q mainBinary modules r]
    exact List.mem_map_of_mem hf
  obtain ⟨-, hne, hall⟩ := (singleKeys_spec _ _).2 f.1 hmem
  exact cleanKey_of_all hne hall

theorem noBreak_targetFields {t : HotTarget} (h : NoBreak t.mnemonic ∧ NoBreak t.operands) (i : ℕ) :
    ∀ f ∈ targetFields i t, NoBreak f := by
  unfold targetFields
  simp only [List.forall_mem_cons, noBreak_decimalText, (cleanText_hexField _).noBreak, h,
    true_and, List.not_mem_nil, false_implies, implies_true]

theorem cleanField_infoFields (h : CleanInfo q mainBinary modules) :
    ∀ f ∈ infoFields q mainBinary modules r, CleanField f := by
  have hsingle := @cleanField_singleFields q mainBinary modules r h
  have hrejectedKey : CleanKey rejectedKey := cleanKey_of_all (by decide) (by decide)
  have hthreadKey : CleanKey threadKey := cleanKey_of_all (by decide) (by decide)
  unfold singleFields at hsingle
  rw [List.forall_mem_append, List.forall_mem_append, List.forall_mem_cons] at hsingle
  obtain ⟨⟨hsetting, hlimit⟩, hcount, htotal⟩ := hsingle
  unfold infoFields
  simp only [List.forall_mem_append]
  refine ⟨⟨⟨⟨⟨⟨hsetting, ?_⟩, hlimit⟩, ?_⟩, ?_⟩, ?_⟩, htotal⟩
  · intro f hf
    obtain ⟨e, he, rfl⟩ := List.mem_map.mp hf
    exact ⟨cleanKey_moduleKey, noBreak_tabFields fun f hf =>
      (cleanText_moduleFields (h.mappings e he) f hf).noBreak⟩
  · intro f hf
    obtain ⟨i, hi, rfl⟩ := List.mem_mapIdx.mp hf
    exact ⟨cleanKey_targetKey,
      noBreak_tabFields (noBreak_targetFields (h.targets _ (List.getElem_mem hi)) i)⟩
  · intro f hf
    obtain ⟨t, ht, rfl⟩ := List.mem_map.mp hf
    refine ⟨hrejectedKey, noBreak_tabFields ?_⟩
    unfold rejectedFields
    simp only [List.forall_mem_cons, noBreak_decimalText, (cleanText_hexField _).noBreak,
      h.rejected t ht, true_and, List.not_mem_nil, false_implies, implies_true]
  · unfold threadLines
    rw [List.forall_mem_cons]
    refine ⟨hcount, fun f hf => ?_⟩
    obtain ⟨stats, -, rfl⟩ := List.mem_map.mp hf
    refine ⟨hthreadKey, noBreak_tabFields ?_⟩
    unfold threadFields
    simp only [List.forall_mem_cons, noBreak_decimalText, (cleanText_formatInt _).noBreak, true_and,
      List.not_mem_nil, false_implies, implies_true]

theorem fileLines_infoText (h : CleanInfo q mainBinary modules) :
    fileLines (infoText q mainBinary modules r) =
      (infoFields q mainBinary modules r).map headerLine :=
  fileLines_unlines (cleanField_infoFields h)

theorem lookup_infoText (h : CleanInfo q mainBinary modules) {f : Text × Text}
    (hf : f ∈ singleFields q mainBinary modules r) :
    (parseInfo (infoText q mainBinary modules r)).lookup f.1 = some (rstrip f.2) := by
  have hkey : f.1 ∉ repeatedKeys := by
    have hmem : f.1 ∈ singleKeys (decide (q.callchainMode = .dwarf))
        q.autoWindowDiscardedOnFirstExplicit := by
      rw [← singleFields_keys q mainBinary modules r]
      exact List.mem_map_of_mem hf
    exact ((singleKeys_spec _ _).2 f.1 hmem).1
  unfold infoText
  rw [lookup_parseInfo (cleanField_infoFields h), filter_infoFields hkey, filter_singleFields hf]
  rfl

theorem ne_of_mem_singleKeys {fields : List (Text × Text)} {key : Text} (hkey : key ∈ repeatedKeys)
    (h : fields ⊆ singleFields q mainBinary modules r) : ∀ f ∈ fields, f.1 ≠ key := by
  intro f hf he
  have hmem : f.1 ∈ singleKeys (decide (q.callchainMode = .dwarf))
      q.autoWindowDiscardedOnFirstExplicit := by
    rw [← singleFields_keys q mainBinary modules r]
    exact List.mem_map_of_mem (h hf)
  exact ((singleKeys_spec _ _).2 f.1 hmem).1 (he ▸ hkey)

theorem parseModuleMap_infoText (h : CleanInfo q mainBinary modules) :
    parseModuleMap (infoText q mainBinary modules r) =
      .ok (sortModules (modules.map ModuleMapEntry.resolved)) := by
  have hclean := @cleanField_infoFields q mainBinary modules r h
  have hsetting := @ne_of_mem_singleKeys q mainBinary modules r (settingFields q mainBinary modules)
    moduleKey (by decide) fun f hf => by
      unfold singleFields
      simp [hf]
  have hlimit := @ne_of_mem_singleKeys q mainBinary modules r (limitFields q) moduleKey (by decide)
    fun f hf => by
      unfold singleFields
      simp [hf]
  have htotal := @ne_of_mem_singleKeys q mainBinary modules r
    (("thread_count".toList, decimalText r.lines.length) :: totalFields r) moduleKey (by decide)
    fun f hf => by
      unfold singleFields
      simp only [List.mem_append]
      exact .inr hf
  rw [List.forall_mem_cons] at htotal
  have htail : ∀ f ∈ limitFields q ++ (targetLines q ++ (rejectedLines q ++ (threadLines r ++
      totalFields r))), f.1 ≠ moduleKey := by
    simp only [List.forall_mem_append]
    refine ⟨hlimit, ?_, ?_, ?_, htotal.2⟩
    · intro f hf
      obtain ⟨i, hi, rfl⟩ := List.mem_mapIdx.mp hf
      exact (by decide : targetKey ≠ moduleKey)
    · intro f hf
      obtain ⟨t, -, rfl⟩ := List.mem_map.mp hf
      exact (by decide : rejectedKey ≠ moduleKey)
    · unfold threadLines
      rw [List.forall_mem_cons]
      refine ⟨htotal.1, fun f hf => ?_⟩
      obtain ⟨stats, -, rfl⟩ := List.mem_map.mp hf
      exact (by decide : threadKey ≠ moduleKey)
  obtain ⟨front, tail, hsplit, hfront, hback⟩ : ∃ front tail, infoFields q mainBinary modules r =
      front ++ (moduleLines modules ++ tail) ∧ (∀ f ∈ front, f.1 ≠ moduleKey) ∧
        ∀ f ∈ tail, f.1 ≠ moduleKey :=
    ⟨settingFields q mainBinary modules, _, by
      unfold infoFields
      simp only [List.append_assoc], hsetting, htail⟩
  rw [hsplit, List.forall_mem_append, List.forall_mem_append] at hclean
  obtain ⟨hclean1, -, hclean2⟩ := hclean
  have hread : (fileLines (infoText q mainBinary modules r)).foldlM readModuleLine [] =
      .ok (modules.map ModuleMapEntry.resolved) := by
    rw [fileLines_infoText h, hsplit, List.map_append, List.map_append, List.foldlM_append,
      foldlM_readModuleLine_other hclean1 hfront]
    change List.foldlM readModuleLine [] _ = _
    rw [List.foldlM_append, foldlM_readModuleLine_modules h.mappings, List.nil_append]
    exact foldlM_readModuleLine_other hclean2 hback _
  unfold parseModuleMap
  rw [hread]
  rfl

theorem loadBiasFromInfo_infoText (h : CleanInfo q mainBinary modules) {t : HotTarget}
    {ts : List HotTarget} (htargets : q.loaded.targets = t :: ts) :
    loadBiasFromInfo (infoText q mainBinary modules r) =
      .ok ((t.absPc.toNat : ℤ) - t.pcOffset.toNat) := by
  have hclean := @cleanField_infoFields q mainBinary modules r h
  have hsetting := @ne_of_mem_singleKeys q mainBinary modules r (settingFields q mainBinary modules)
    targetKey (by decide) fun f hf => by
      unfold singleFields
      simp [hf]
  have hlimit := @ne_of_mem_singleKeys q mainBinary modules r (limitFields q) targetKey (by decide)
    fun f hf => by
      unfold singleFields
      simp [hf]
  obtain ⟨front, rest, hsplit, hfront⟩ : ∃ front rest, infoFields q mainBinary modules r =
      front ++ (targetKey, tabFields (targetFields 0 t)) :: rest ∧
        ∀ f ∈ front, f.1 ≠ targetKey := by
    refine ⟨settingFields q mainBinary modules ++ moduleLines modules ++ limitFields q,
      (ts.mapIdx fun i t => (targetKey, tabFields (targetFields (i + 1) t))) ++ rejectedLines q ++
        threadLines r ++ totalFields r, ?_, ?_⟩
    · unfold infoFields targetLines
      rw [htargets, List.mapIdx_cons]
      simp only [List.append_assoc, List.cons_append]
    · simp only [List.forall_mem_append]
      refine ⟨⟨hsetting, ?_⟩, hlimit⟩
      intro f hf
      obtain ⟨e, -, rfl⟩ := List.mem_map.mp hf
      exact (by decide : moduleKey ≠ targetKey)
  obtain ⟨hmnemonic, hoperands⟩ := h.targets t (htargets ▸ List.mem_cons_self)
  unfold loadBiasFromInfo
  rw [fileLines_infoText h, hsplit, List.map_append, List.map_cons]
  rw [hsplit, List.forall_mem_append] at hclean
  rw [loadBiasFrom_other hclean.1 hfront]
  exact loadBiasFrom_target hmnemonic hoperands 0 _

end Whole

/-! ## Mappings of the process -/

/-- A line that `write_info` lists: an executable mapping that has a path. -/
def listedMapping (realpath : Text → Option Text) (line : Text) : Option MapsLine :=
  match parseMapsLine line with
  | none => none
  | some m =>
      let path := normalizeFilesystemPath realpath (trimAsciiSpace m.path)
      if path = [] then none else some { m with path := path }

theorem snapshotRuntimeModuleMaps_eq (realpath : Text → Option Text) (lines : List Text) :
    snapshotRuntimeModuleMaps realpath lines =
      (lines.filterMap (listedMapping realpath)).mapIdx fun i m =>
        ⟨BitVec.ofNat 32 i, m.vmStart, m.vmEnd, m.fileOffset, m.path⟩ := by
  induction lines using List.reverseRecOn with
  | nil => rfl
  | append_singleton lines line ih =>
      have hstep : snapshotRuntimeModuleMaps realpath (lines ++ [line]) =
          match listedMapping realpath line with
          | none => snapshotRuntimeModuleMaps realpath lines
          | some m => snapshotRuntimeModuleMaps realpath lines ++
              [⟨BitVec.ofNat 32 (snapshotRuntimeModuleMaps realpath lines).length, m.vmStart,
                m.vmEnd, m.fileOffset, m.path⟩] := by
        unfold listedMapping
        rw [snapshotRuntimeModuleMaps, List.foldl_append, ← snapshotRuntimeModuleMaps]
        rw [List.foldl_cons, List.foldl_nil]
        cases parseMapsLine line with
        | none => rfl
        | some m =>
            dsimp only
            split_ifs <;> rfl
      rw [hstep, List.filterMap_append, List.filterMap_cons, List.filterMap_nil]
      cases listedMapping realpath line with
      | none =>
          dsimp only
          rw [ih, List.append_nil]
      | some m =>
          dsimp only
          rw [List.mapIdx_concat, ← ih]
          congr 4
          rw [ih, List.length_mapIdx]

theorem mem_sortModules {modules : List ModuleEntry} {m : ModuleEntry} :
    m ∈ sortModules modules ↔ m ∈ modules :=
  List.mem_insertionSort _

theorem contains_resolved (e : ModuleMapEntry) (ip : ℕ) :
    e.resolved.contains ip = true ↔ ip ∈ e.vmRange := by
  unfold ModuleEntry.contains ModuleMapEntry.resolved ModuleMapEntry.vmRange
  simp only [Nat.cast_le, Nat.cast_lt, decide_eq_true_eq, Set.mem_Ico]

/-- Of disjoint mappings the resolver finds the one that has the address. -/
theorem findModule_resolved {modules : List ModuleMapEntry}
    (hdisj : modules.Pairwise fun e e' => ∀ x ∈ e.vmRange, x ∉ e'.vmRange) {e : ModuleMapEntry}
    (he : e ∈ modules) {ip : ℕ} (hip : ip ∈ e.vmRange) :
    findModule (sortModules (modules.map ModuleMapEntry.resolved)) ip = some e.resolved := by
  cases hfind : findModule (sortModules (modules.map ModuleMapEntry.resolved)) (ip : ℤ) with
  | none =>
      have hnone := findModule_eq_none_iff.mp hfind e.resolved
        (mem_sortModules.mpr (List.mem_map_of_mem he))
      rw [(contains_resolved e ip).mpr hip] at hnone
      cases hnone
  | some m =>
      obtain ⟨hmem, hcontains, -⟩ := findModule_spec hfind
      obtain ⟨e', he', rfl⟩ := List.mem_map.mp (mem_sortModules.mp hmem)
      rw [eq_of_pairwise_disjoint hdisj he' he ((contains_resolved e' ip).mp hcontains) hip]

theorem mem_settingFields_mode (q : ConfiguredRd) (mainBinary : Text)
    (modules : List ModuleMapEntry) :
    ("callchain_mode".toList, callchainModeName q.callchainMode) ∈
      settingFields q mainBinary modules := by
  have hmem : ("callchain_mode".toList, callchainModeName q.callchainMode) ∈
      (settingFields q mainBinary modules).take 14 := List.mem_of_getElem? (i := 11) rfl
  exact List.mem_of_mem_take hmem

theorem mem_settingFields_binary (q : ConfiguredRd) (mainBinary : Text)
    (modules : List ModuleMapEntry) :
    ("main_binary".toList, mainBinary) ∈ settingFields q mainBinary modules :=
  List.mem_append_right _ (List.mem_cons_of_mem _ List.mem_cons_self)

/-- What the resolver reads is what the run printed: every single value, the mode and the binary it
asks for, and the load bias of the first target. An address in an executable mapping of the
process is attributed to this mapping and its place in the file. -/
theorem run_info_reads_back (q : ConfiguredRd) (mainBinary : Text) (realpath : Text → Option Text)
    (lines : List Text) (r : Report)
    (h : CleanInfo q mainBinary (snapshotRuntimeModuleMaps realpath lines))
    (hdisj : (snapshotRuntimeModuleMaps realpath lines).Pairwise
      fun e e' => ∀ x ∈ e.vmRange, x ∉ e'.vmRange) :
    let text := infoText q mainBinary (snapshotRuntimeModuleMaps realpath lines) r
    (∀ f ∈ singleFields q mainBinary (snapshotRuntimeModuleMaps realpath lines) r,
      (parseInfo text).lookup f.1 = some (rstrip f.2)) ∧
    (parseInfo text).lookup "callchain_mode".toList = some (callchainModeName q.callchainMode) ∧
    (parseInfo text).lookup "main_binary".toList = some mainBinary ∧
    (∀ t ts, q.loaded.targets = t :: ts →
      loadBiasFromInfo text = .ok ((t.absPc.toNat : ℤ) - t.pcOffset.toNat)) ∧
    ∃ modules, parseModuleMap text = .ok modules ∧
      ∀ line ∈ lines, ∀ m, listedMapping realpath line = some m →
        ∀ ip : ℕ, m.vmStart.toNat ≤ ip → ip < m.vmEnd.toNat →
          ∃ e, findModule modules ip = some e ∧ e.path = m.path ∧
            e.offset ip = (ip : ℤ) - m.vmStart.toNat + m.fileOffset.toNat := by
  intro text
  have hsingle : ∀ f ∈ singleFields q mainBinary (snapshotRuntimeModuleMaps realpath lines) r,
      (parseInfo text).lookup f.1 = some (rstrip f.2) := fun f hf => lookup_infoText h hf
  refine ⟨hsingle, ?_, ?_, fun t ts => loadBiasFromInfo_infoText h, _,
    parseModuleMap_infoText h, ?_⟩
  · have hmode : rstrip (callchainModeName q.callchainMode) =
        callchainModeName q.callchainMode := by
      cases q.callchainMode <;> rfl
    rw [← hmode]
    exact hsingle ("callchain_mode".toList, callchainModeName q.callchainMode)
      (List.mem_append_left _ (List.mem_append_left _ (mem_settingFields_mode ..)))
  · rw [← rstrip_eq h.binaryEnd]
    exact hsingle ("main_binary".toList, mainBinary)
      (List.mem_append_left _ (List.mem_append_left _ (mem_settingFields_binary ..)))
  · intro line hline m hm ip hstart hend
    have hlisted : m ∈ lines.filterMap (listedMapping realpath) :=
      List.mem_filterMap.mpr ⟨line, hline, hm⟩
    obtain ⟨i, hi, rfl⟩ := List.mem_iff_getElem.mp hlisted
    have hmem : (⟨BitVec.ofNat 32 i, (lines.filterMap (listedMapping realpath))[i].vmStart,
        (lines.filterMap (listedMapping realpath))[i].vmEnd,
        (lines.filterMap (listedMapping realpath))[i].fileOffset,
        (lines.filterMap (listedMapping realpath))[i].path⟩ : ModuleMapEntry) ∈
          snapshotRuntimeModuleMaps realpath lines := by
      rw [snapshotRuntimeModuleMaps_eq]
      exact List.mem_mapIdx.mpr ⟨i, hi, rfl⟩
    exact ⟨_, findModule_resolved hdisj hmem (Set.mem_Ico.mpr ⟨hstart, hend⟩), rfl, rfl⟩

def smallTarget : HotTarget where
  pcOffset := 16
  absPc := 0x400010
  aggregatedSamples := 5
  path := "/a".toList
  mnemonic := "ldr".toList
  operands := "x0, [x1]".toList
  decode := ⟨8, 1, false, false, 0, false, -1, false, false, .none, 0⟩

def smallInfoLines : List Text := ["400000-500000 r-xp 0 08:01 7 /a".toList]

def smallConfigured : ConfiguredRd where
  toTargetedRd := smallConstructorEnv.prepared
    ⟨"/m".toList, 4, 6, 1000, "mem".toList, .dwarf, 8192, 64⟩ (rdWpctlOpen 1)
  settings := ⟨"/m".toList, 4, 6, 1000, "mem".toList, .dwarf, 8192, 64⟩
  loaded := ⟨[smallTarget], [], 1, 0⟩

def smallThreadStats : ThreadStats where
  index := 0
  tid := 7
  cpu := 1
  active := false
  candidateSamples := 1
  reservoirSeen := 1
  reservoirAccepted := 1
  reservoirRejected := 0
  hits := 1
  evictions := 0
  dropped := 0
  pairHistUsed := 1
  pairHistDropped := 0
  contextUsed := 0
  contextDropped := 0
  callchainFailed := 0
  callchainTruncated := 0
  dwarfEventUsed := 1
  dwarfEventDropped := 0
  dwarfStackCopyFailed := 0
  dwarfStackBytes := 8192

def oneThreadReport : Report := ⟨[smallThreadStats], .of [smallThreadStats], ⟨[], []⟩, [], []⟩

theorem run_info_reads_back_small :
    let text := infoText smallConfigured "/a".toList
      (snapshotRuntimeModuleMaps (fun _ => none) smallInfoLines) oneThreadReport
    loadBiasFromInfo text = .ok 0x400000 ∧
      (parseInfo text).lookup "callchain_mode".toList = some "dwarf".toList ∧
      (parseInfo text).lookup "thread_count".toList = some "1".toList ∧
      (parseInfo text).lookup "watchpoint_hits".toList = some "1".toList ∧
      ∃ modules e, parseModuleMap text = .ok modules ∧ findModule modules 0x400123 = some e ∧
        e.path = "/a".toList ∧ e.offset 0x400123 = 0x123 := by
  have hmodules : snapshotRuntimeModuleMaps (fun _ => none) smallInfoLines =
      [⟨0, 0x400000, 0x500000, 0, "/a".toList⟩] := by
    decide +kernel
  have hlisted : listedMapping (fun _ => none) "400000-500000 r-xp 0 08:01 7 /a".toList =
      some ⟨0x400000, 0x500000, 0, "/a".toList⟩ := by
    decide +kernel
  have hclean : CleanInfo smallConfigured "/a".toList
      (snapshotRuntimeModuleMaps (fun _ => none) smallInfoLines) := by
    rw [hmodules]
    refine ⟨by decide, by decide, by decide, ?_, ?_, ?_, ?_⟩
    · intro c hc
      rw [← Option.some.inj hc]
      decide +kernel
    · intro e he
      rw [List.mem_singleton.mp he]
      exact ⟨by decide, by decide, by decide⟩
    · intro t ht
      rw [List.mem_singleton.mp ht]
      exact ⟨by decide, by decide⟩
    · intro t ht
      cases ht
  have hdisj : (snapshotRuntimeModuleMaps (fun _ => none) smallInfoLines).Pairwise
      fun e e' => ∀ x ∈ e.vmRange, x ∉ e'.vmRange := by
    rw [hmodules]
    exact List.pairwise_singleton ..
  obtain ⟨hsingle, hmode, -, hbias, modules, hparse, hfind⟩ :=
    run_info_reads_back smallConfigured "/a".toList (fun _ => none) smallInfoLines oneThreadReport
      hclean hdisj
  obtain ⟨e, he, hpath, hoffset⟩ := hfind _ List.mem_cons_self _ hlisted 0x400123 (by decide)
    (by decide)
  have hcount := hsingle ("thread_count".toList, decimalText 1)
    (List.mem_append_right _ List.mem_cons_self)
  have hhits := hsingle ("watchpoint_hits".toList, decimalText 1)
    (List.mem_append_right _ (List.mem_cons_of_mem _ (List.mem_cons_of_mem _ List.mem_cons_self)))
  exact ⟨hbias smallTarget [] rfl, hmode, hcount.trans (by decide), hhits.trans (by decide),
    modules, e, hparse, he, hpath, hoffset⟩

end RdSpeTool
