import RdSpeTool.CandidatePartition
import RdSpeTool.ProfilerRun
import RdSpeTool.StateMachine

/-!
# Setup of the targeted profiler

The constructor of `TargetedRdProfiler` reads its settings from the environment, loads the targets
of the manifest and hands both to the kernel module before it registers threads. The numbers in the
settings go through `long` and are cut to the width of the field they are kept in.
-/

namespace RdSpeTool

open CText

/-! ## Settings -/

structure RdEnviron where
  rdTargetFile : Option Text
  rdWpCapacity : Option Text
  rdBpCapacity : Option Text
  rdBpSamplePeriod : Option Text
  rdRdEvent : Option Text
  rdCallchainMode : Option Text
  rdDwarfStackBytes : Option Text
  rdDwarfEventCapacity : Option Text

structure RdSettings where
  targetFile : Text
  watchpointCapacity : U32
  bpCapacity : U32
  bpSamplePeriod : U64
  rdEventName : Text
  callchainMode : CallchainMode
  dwarfStackBytes : U32
  dwarfEventCapacity : U32

/-- An empty variable counts as unset. -/
def getenvText (v : Option Text) : Option Text := v.filter (· ≠ [])

def targetFileSetting (v : Option Text) : Except String Text :=
  match getenvText v with
  | none => throw "RD_TARGET_FILE is required for RD_MODE=targeted_rd"
  | some t => pure t

def positiveSetting {w : ℕ} (name : String) (default : BitVec w) (v : Option Text) :
    Except String (BitVec w) :=
  match getenvText v with
  | none => pure default
  | some t =>
      if (strtol 10 t).1 ≤ 0 then throw (name ++ " must be positive")
      else pure (BitVec.ofInt w (strtol 10 t).1)

def rdEventSetting (v : Option Text) : Except String Text :=
  let name := (getenvText v).getD "mem_access".toList
  if name ≠ "mem_access".toList then
    throw "kernel targeted_rd only supports RD_RD_EVENT=mem_access"
  else pure name

def callchainSetting (v : Option Text) : Except String CallchainMode :=
  match getenvText v with
  | none => pure .off
  | some mode =>
      if mode = "off".toList then pure .off
      else if mode = "fp".toList then pure .fp
      else if mode = "dwarf".toList then pure .dwarf
      else throw "RD_CALLCHAIN_MODE must be off, fp, or dwarf"

def dwarfStackSetting (v : Option Text) : Except String U32 :=
  match getenvText v with
  | none => pure 8192
  | some t =>
      if (strtol 10 t).1 ≤ 0 ∨ (strtol 10 t).1 > maxDwarfStackBytes then
        throw "RD_DWARF_STACK_BYTES must be in [1, 8192]"
      else pure (BitVec.ofInt 32 (strtol 10 t).1)

def readSettings (e : RdEnviron) : Except String RdSettings := do
  let targetFile ← targetFileSetting e.rdTargetFile
  let watchpointCapacity ← positiveSetting "RD_WP_CAPACITY" 4 e.rdWpCapacity
  let bpCapacity ← positiveSetting "RD_BP_CAPACITY" 6 e.rdBpCapacity
  let bpSamplePeriod ← positiveSetting "RD_BP_SAMPLE_PERIOD" 1024 e.rdBpSamplePeriod
  let rdEventName ← rdEventSetting e.rdRdEvent
  let callchainMode ← callchainSetting e.rdCallchainMode
  let dwarfStackBytes ← dwarfStackSetting e.rdDwarfStackBytes
  let dwarfEventCapacity ←
    positiveSetting "RD_DWARF_EVENT_CAPACITY" 16384 e.rdDwarfEventCapacity
  pure ⟨targetFile, watchpointCapacity, bpCapacity, bpSamplePeriod, rdEventName, callchainMode,
    dwarfStackBytes, dwarfEventCapacity⟩

/-- A positive number that leaves nothing in 32 bits. -/
def Wraps (v : Option Text) : Prop :=
  ∃ t, getenvText v = some t ∧ 0 < (strtol 10 t).1 ∧ (2 ^ 32 : ℤ) ∣ (strtol 10 t).1

/-! ## Configuration of the session -/

def CallchainMode.code : CallchainMode → ℕ
  | off => 0
  | fp => 1
  | dwarf => 2

def RdSettings.sessionCfg (st : RdSettings) : SessionCfg where
  wpCapacity := st.watchpointCapacity.toNat
  callchainMode := st.callchainMode.code
  bpSamplePeriod := st.bpSamplePeriod.toNat
  dwarfStackBytes := if st.callchainMode = .dwarf then st.dwarfStackBytes.toNat else 0
  dwarfEventCapacity := if st.callchainMode = .dwarf then st.dwarfEventCapacity.toNat else 0

def HotTarget.toUapi (t : HotTarget) : Target :=
  ⟨t.pcOffset, t.absPc, t.aggregatedSamples, toUapiDecode t.decode⟩

structure ConfigureEnv where
  configRefused : Option { ret : ℤ // ret < 0 }
  loadRefused : Option { ret : ℤ // ret < 0 }
  memdup : Option { ret : ℤ // ret < 0 }
  allocOk : Bool

inductive SetupError
  | message (text : String)
  | deviceOpen (errno : ℤ)
  | configSession (ret : ℤ)
  | loadTargets (ret : ℤ)
  | run (e : RunError)

/-- `configure_session`; the count of the batch is a `uint32_t`. -/
def configureSession (s : Session) (st : RdSettings) (targets : List HotTarget)
    (env : ConfigureEnv) : Except SetupError Session :=
  let c := ioctlResult s env.configRefused (rdWpctlIoctl s (.configSession st.sessionCfg))
  if c.1 < 0 then throw (.configSession c.1)
  else
    let batch := (targets.map HotTarget.toUapi).take (targets.length % 2 ^ 32)
    let memdupRet := (env.memdup.map Subtype.val).getD 0
    let l := ioctlResult c.2 env.loadRefused
      (rdWpctlIoctl c.2 (.loadTargets batch memdupRet env.allocOk))
    if l.1 < 0 then throw (.loadTargets l.1) else pure l.2

/-! ## The constructor -/

/-- What the constructor finds. `exePath` is empty if the link of the executable cannot be read,
`manifest` is missing if the file cannot be opened. -/
structure ConstructorEnv where
  environ : RdEnviron
  nameprefix : Text
  exePath : Text
  infoOpens : Bool
  deviceErrno : Option ℤ
  tgid : ℤ
  manifest : Option Text
  realpath : Text → Option Text
  runCommand : Text → Text
  mapsLines : List Text
  iterate : List TargetCandidate → List TargetCandidate
  configure : ConfigureEnv
  isPin : Bool
  pageSize : ℕ
  numCpus : ℕ
  initial : List (ℤ × BindOutcome)

structure ConfiguredRd extends TargetedRd where
  settings : RdSettings
  loaded : LoadedTargets

namespace ConstructorEnv

variable (env : ConstructorEnv)

def loadEnv (st : RdSettings) : LoadEnv :=
  ⟨st.targetFile, env.exePath, env.realpath, env.runCommand, env.mapsLines, st.bpCapacity⟩

def load (st : RdSettings) : Except String LoadedTargets :=
  match env.manifest with
  | none => throw ("cannot open hotspot manifest " ++ String.ofList st.targetFile)
  | some manifest => loadTargets (env.loadEnv st) env.iterate manifest

def openFiles : Except SetupError Unit :=
  if env.exePath = [] then throw (.message "cannot resolve /proc/self/exe")
  else if env.infoOpens = false then
    throw (.message ("cannot open " ++ String.ofList env.nameprefix ++ ".rd2.info"))
  else
    match env.deviceErrno with
    | some errno => throw (.deviceOpen errno)
    | none => pure ()

def prepared (st : RdSettings) (device : Session) : TargetedRd where
  isPin := env.isPin
  pageSize := env.pageSize
  watchpointCapacity := st.watchpointCapacity.toNat
  cpuOwner := List.replicate env.numCpus 0
  threads := fun _ => none
  mapped := []
  device := device
  windowOpen := false
  autoFallbackActive := false
  explicitWindowSeen := false
  autoWindowDiscardedOnFirstExplicit := false
  callchainMode := st.callchainMode

def targetedRdProfiler : Except SetupError ConfiguredRd := do
  let st ← (readSettings env.environ).mapError .message
  env.openFiles
  let loaded ← (env.load st).mapError .message
  let device ← configureSession (rdWpctlOpen env.tgid) st loaded.targets env.configure
  let q ← ((env.prepared st device).construct env.initial).mapError .run
  pure ⟨q, st, loaded⟩

end ConstructorEnv

/-! ## What the decoder hands to validation -/

section Decoded

variable {dec dec' : DecodeTemplate} {items : List Text}

/-- The registers and sizes that a decoded operand can have. -/
structure DecodeTemplate.Decoded (dec : DecodeTemplate) : Prop where
  size : dec.accessSize ∈ [1, 2, 4, 8]
  base : 0 ≤ dec.baseReg ∧ dec.baseReg ≤ perfRegSp
  index : dec.hasIndex = true → (dec.indexIsZero = true ∧ dec.indexReg = -1) ∨
    (dec.indexIsZero = false ∧ 0 ≤ dec.indexReg ∧ dec.indexReg ≤ perfRegSp)

/-- The stack pointer as index register: the decoder reads it, the kernel refuses it. -/
def HotTarget.SpIndexed (t : HotTarget) : Prop :=
  t.decode.hasIndex = true ∧ t.decode.indexReg = perfRegSp

theorem parseRegName_range {token : Text} {r : RegName} (h : parseRegName token = some r) :
    (r.isZero = true ∧ r.reg = -1) ∨ (r.isZero = false ∧ 0 ≤ r.reg ∧ r.reg ≤ perfRegSp) := by
  unfold parseRegName at h
  dsimp only at h
  split_ifs at h with hsp hzero hform hn hlr
  · cases h
    exact .inr ⟨rfl, by decide, le_rfl⟩
  · cases h
    exact .inl ⟨rfl, rfl⟩
  · cases h
    exact .inr ⟨rfl, hn.2.1, hn.2.2.trans (by decide)⟩
  · cases h
    exact .inr ⟨rfl, by decide, by decide⟩

theorem parseAccessSizeFromDest_mem {dest : Text} {size : ℤ}
    (h : parseAccessSizeFromDest dest = .ok size) : size ∈ [1, 2, 4, 8, 16] := by
  unfold parseAccessSizeFromDest at h
  split at h
  all_goals cases h
  all_goals decide

theorem decodeExtend_fields {item : Text} (h : decodeExtend dec item = .ok dec') :
    ∃ extend shift, dec' = { dec with extend := extend, shift := shift } := by
  have hmain : ∀ (op arg : Text) (shift : U8), (do
      let extend ← parseExtend op
      if arg = [] then pure { dec with extend := extend }
      else if arg.head? ≠ some '#' then throw (quoting "unsupported shift argument" arg)
      else pure { dec with extend := extend, shift := shift }) = Except.ok dec' →
      ∃ extend shift, dec' = { dec with extend := extend, shift := shift } := by
    intro op arg shift h
    cases hparse : parseExtend op with
    | error e =>
        rw [hparse] at h
        cases h
    | ok extend =>
        rw [hparse] at h
        change (if arg = [] then _ else _) = _ at h
        split_ifs at h
        · cases h
          exact ⟨extend, dec.shift, rfl⟩
        · cases h
          exact ⟨extend, shift, rfl⟩
  exact hmain _ _ _ h

theorem DecodeTemplate.Decoded.decodeOffset (hdec : dec.Decoded) (hno : dec.hasIndex = false)
    (h : decodeOffset dec items = .ok dec') : dec'.Decoded := by
  cases items with
  | nil =>
      cases h
      exact hdec
  | cons item rest =>
      rw [decodeOffset.eq_def] at h
      dsimp only at h
      split_ifs at h with himm
      · cases hparse : parseScaledImm item with
        | error e =>
            rw [hparse] at h
            cases h
        | ok imm =>
            rw [hparse] at h
            cases h
            exact ⟨hdec.size, hdec.base, fun hhas => absurd (hno.symm.trans hhas) (by decide)⟩
      · cases hreg : parseRegName item with
        | none =>
            rw [hreg] at h
            cases h
        | some r =>
            rw [hreg] at h
            have hrange := parseRegName_range hreg
            cases rest with
            | nil =>
                cases h
                exact ⟨hdec.size, hdec.base, fun _ => hrange⟩
            | cons ext rest =>
                obtain ⟨extend, shift, rfl⟩ := decodeExtend_fields h
                exact ⟨hdec.size, hdec.base, fun _ => hrange⟩

theorem decodeAddress_decoded {size : ℤ} (hsize : size ∈ [1, 2, 4, 8])
    (h : decodeAddress size items = .ok dec) : dec.Decoded := by
  cases items with
  | nil => cases h
  | cons item rest =>
      rw [decodeAddress] at h
      cases hreg : parseRegName item with
      | none =>
          rw [hreg] at h
          cases h
      | some r =>
          rw [hreg] at h
          dsimp only at h
          split_ifs at h with hzero
          have hbase := (parseRegName_range hreg).resolve_left fun hz => hzero hz.1
          refine DecodeTemplate.Decoded.decodeOffset ⟨hsize, hbase.2, ?_⟩ rfl h
          intro hhas
          cases hhas

theorem decodeFromAsmOperands_decoded {mnemonic operands : Text}
    (h : decodeFromAsmOperands mnemonic operands = .ok dec) : dec.Decoded := by
  obtain ⟨e, he, -⟩ | ⟨dest, size, items, hsize, hwide, he⟩ :=
    decodeFromAsmOperands_cases mnemonic operands
  · rw [he] at h
    cases h
  · rw [he] at h
    refine decodeAddress_decoded ?_ h
    have hmem := parseAccessSizeFromDest_mem hsize
    simp only [List.mem_cons, List.not_mem_nil, or_false] at hmem ⊢
    omega

/-- Of what the decoder makes, validation refuses only a zero address and the index `sp`. -/
theorem rdValidateTarget_toUapi {t : HotTarget} (h : t.decode.Decoded) :
    rdValidateTarget t.toUapi = 0 ↔ t.absPc ≠ 0 ∧ ¬ t.SpIndexed := by
  have hsize : (BitVec.ofInt 32 t.decode.accessSize).toNat ∈ [1, 2, 4, 8] := by
    have hcases := h.size
    simp only [List.mem_cons, List.not_mem_nil, or_false] at hcases
    rcases hcases with hs | hs | hs | hs
    all_goals
      rw [hs]
      decide
  have hextend : ¬ t.decode.extend.code > ExtendKind.sxtx := by
    cases t.decode.extend <;> decide
  have hlr : perfRegLr + 1 = perfRegSp := rfl
  have hbase := h.base
  simp only [List.mem_cons, List.not_mem_nil, or_false] at hsize
  unfold rdValidateTarget HotTarget.toUapi HotTarget.SpIndexed toUapiDecode
  dsimp only
  by_cases hpc : t.absPc = 0
  · rw [if_pos hpc]
    exact iff_of_false (by decide) fun hn => hn.1 hpc
  rw [if_neg hpc, if_neg (by omega), if_neg (by omega), if_neg hextend]
  by_cases hindex : t.decode.hasIndex = true
  · rcases h.index hindex with ⟨hzero, hreg⟩ | ⟨hzero, hreg⟩
    · rw [if_neg fun hbad => hbad.2.1 hzero]
      exact iff_of_true rfl ⟨hpc, fun hsp => by rw [hreg] at hsp; exact absurd hsp.2 (by decide)⟩
    · simp only [hindex, hzero, true_and, Bool.false_eq_true, not_false_eq_true]
      split_ifs with hbad
      · exact iff_of_false (by decide) fun hn => hn.2 (by omega)
      · exact iff_of_true rfl ⟨hpc, by omega⟩
  · rw [if_neg fun hbad => hindex hbad.1]
    exact iff_of_true rfl ⟨hpc, fun hsp => hindex hsp.1⟩

end Decoded

/-! ## Settings that the kernel accepts -/

section Settings

variable {e : RdEnviron} {st : RdSettings}

theorem ofInt_eq_zero {w : ℕ} {i : ℤ} : BitVec.ofInt w i = 0 ↔ (2 ^ w : ℤ) ∣ i := by
  have hpow : (0 : ℤ) < 2 ^ w := by positivity
  have hnonneg := Int.emod_nonneg i hpow.ne'
  have hzero : (0 : BitVec w).toNat = 0 := by simp
  rw [← BitVec.toNat_inj, BitVec.toNat_ofInt, Int.dvd_iff_emod_eq_zero, hzero]
  push_cast
  omega

theorem positiveSetting_eq_zero {name : String} {d x : U32} (hd : d ≠ 0) {v : Option Text}
    (h : positiveSetting name d v = .ok x) : x = 0 ↔ Wraps v := by
  unfold positiveSetting at h
  unfold Wraps
  cases hv : getenvText v with
  | none =>
      rw [hv] at h
      cases h
      refine iff_of_false hd ?_
      rintro ⟨t, ht, -⟩
      cases ht
  | some t =>
      rw [hv] at h
      dsimp only at h
      split_ifs at h with hpos
      cases h
      rw [ofInt_eq_zero]
      constructor
      · exact fun hdvd => ⟨t, rfl, not_le.mp hpos, hdvd⟩
      · rintro ⟨t', ht', -, hdvd⟩
        cases ht'
        exact hdvd

theorem strtol_lt (base : ℕ) (s : Text) : (strtol base s).1 < 2 ^ 63 := by
  have hmin := min_le_left (2 ^ 63 - 1) (scan base s).value
  unfold strtol
  rw [max_lt_iff]
  exact ⟨by decide, by omega⟩

/-- A period of 64 bits does not wrap: `strtoll` stops below the sign bit. -/
theorem positiveSetting_ne_zero {name : String} {d x : U64} (hd : d ≠ 0) {v : Option Text}
    (h : positiveSetting name d v = .ok x) : x ≠ 0 := by
  unfold positiveSetting at h
  cases hv : getenvText v with
  | none =>
      rw [hv] at h
      cases h
      exact hd
  | some t =>
      rw [hv] at h
      dsimp only at h
      split_ifs at h with hpos
      cases h
      rw [Ne, ofInt_eq_zero]
      have hlt := strtol_lt 10 t
      omega

theorem dwarfStackSetting_range {v : Option Text} {x : U32} (h : dwarfStackSetting v = .ok x) :
    0 < x.toNat ∧ x.toNat ≤ maxDwarfStackBytes := by
  unfold dwarfStackSetting at h
  cases hv : getenvText v with
  | none =>
      rw [hv] at h
      cases h
      exact ⟨by decide, by decide⟩
  | some t =>
      rw [hv] at h
      dsimp only at h
      split_ifs at h with hbad
      cases h
      rw [BitVec.toNat_ofInt]
      unfold maxDwarfStackBytes at hbad ⊢
      omega

/-- What the parsed settings can be. -/
theorem readSettings_ok (h : readSettings e = .ok st) :
    (st.watchpointCapacity = 0 ↔ Wraps e.rdWpCapacity) ∧ st.bpSamplePeriod ≠ 0 ∧
    (0 < st.dwarfStackBytes.toNat ∧ st.dwarfStackBytes.toNat ≤ maxDwarfStackBytes) ∧
    (st.dwarfEventCapacity = 0 ↔ Wraps e.rdDwarfEventCapacity) := by
  unfold readSettings at h
  obtain ⟨targetFile, -, h⟩ := bind_eq_ok.mp h
  obtain ⟨wp, hwp, h⟩ := bind_eq_ok.mp h
  obtain ⟨bp, -, h⟩ := bind_eq_ok.mp h
  obtain ⟨period, hperiod, h⟩ := bind_eq_ok.mp h
  obtain ⟨event, -, h⟩ := bind_eq_ok.mp h
  obtain ⟨mode, -, h⟩ := bind_eq_ok.mp h
  obtain ⟨stack, hstack, h⟩ := bind_eq_ok.mp h
  obtain ⟨events, hevents, h⟩ := bind_eq_ok.mp h
  cases h
  exact ⟨positiveSetting_eq_zero (by decide) hwp, positiveSetting_ne_zero (by decide) hperiod,
    dwarfStackSetting_range hstack, positiveSetting_eq_zero (by decide) hevents⟩

end Settings

/-! ## The session that results -/

section Configure

variable {tgid : ℤ} {st : RdSettings} {targets : List HotTarget} {env : ConfigureEnv}

def openWithSettings (tgid : ℤ) (st : RdSettings) : Session :=
  { rdWpctlOpen tgid with
      wpCapacity := st.sessionCfg.wpCapacity
      callchainMode := st.callchainMode
      dwarfStackBytes := st.sessionCfg.dwarfStackBytes
      dwarfEventCapacity := st.sessionCfg.dwarfEventCapacity
      bpSamplePeriod := st.sessionCfg.bpSamplePeriod
      configured := true }

def configuredWith (tgid : ℤ) (st : RdSettings) (targets : List HotTarget) : Session :=
  { openWithSettings tgid st with
      targets := targets.map HotTarget.toUapi
      targetsLoaded := true }

structure RdSettings.Accepted (st : RdSettings) : Prop where
  capacity : st.watchpointCapacity ≠ 0
  events : st.callchainMode = .dwarf → st.dwarfEventCapacity ≠ 0

structure ConfigureEnv.AllOk (env : ConfigureEnv) : Prop where
  configRefused : env.configRefused = none
  loadRefused : env.loadRefused = none
  memdup : env.memdup = none
  allocOk : env.allocOk = true

theorem CallchainMode.ofCode_code (m : CallchainMode) : CallchainMode.ofCode m.code = some m := by
  cases m <;> rfl

theorem rdSessionConfigLocked_sessionCfg {e : RdEnviron} (h : readSettings e = .ok st) :
    (st.Accepted → rdSessionConfigLocked (rdWpctlOpen tgid) st.sessionCfg =
      (0, openWithSettings tgid st)) ∧
    (¬ st.Accepted → rdSessionConfigLocked (rdWpctlOpen tgid) st.sessionCfg =
      (-einval, rdWpctlOpen tgid)) := by
  obtain ⟨-, hperiod, hstack, -⟩ := readSettings_ok h
  have hzero : ∀ {w : ℕ} {x : BitVec w}, x.toNat = 0 ↔ x = 0 := by
    intro w x
    rw [← BitVec.toNat_inj]
    simp
  have hidle : ¬ ((rdWpctlOpen tgid).configured = true ∨
      (rdWpctlOpen tgid).targetsLoaded = true) := by simp [rdWpctlOpen]
  have hbytes : ¬ st.sessionCfg.dwarfStackBytes > maxDwarfStackBytes := by
    unfold RdSettings.sessionCfg
    dsimp only
    split_ifs
    · omega
    · exact Nat.not_lt_zero _
  have hevents : st.callchainMode = .dwarf →
      ((st.sessionCfg.dwarfStackBytes = 0 ∨ st.sessionCfg.dwarfEventCapacity = 0) ↔
        st.dwarfEventCapacity = 0) := by
    intro hmode
    unfold RdSettings.sessionCfg
    dsimp only
    rw [if_pos hmode, if_pos hmode, hzero (x := st.dwarfEventCapacity)]
    exact or_iff_right (by omega)
  have hcapacity : (st.sessionCfg.wpCapacity = 0 ∨ st.sessionCfg.bpSamplePeriod = 0) ↔
      st.watchpointCapacity = 0 := by
    unfold RdSettings.sessionCfg
    dsimp only
    rw [hzero, hzero]
    exact or_iff_left hperiod
  have hcode : CallchainMode.ofCode st.sessionCfg.callchainMode = some st.callchainMode :=
    st.callchainMode.ofCode_code
  unfold rdSessionConfigLocked
  rw [if_neg hidle, hcode]
  dsimp only
  rw [if_neg hbytes]
  constructor
  · intro hok
    rw [if_neg (mt hcapacity.mp hok.capacity), if_neg]
    · rfl
    · exact fun hbad => hok.events hbad.1 ((hevents hbad.1).mp hbad.2)
  · intro hbad
    by_cases hwp : st.watchpointCapacity = 0
    · rw [if_pos (hcapacity.mpr hwp)]
    · rw [if_neg (mt hcapacity.mp hwp), if_pos]
      by_contra hno
      refine hbad ⟨hwp, fun hmode hev => hno ⟨hmode, (hevents hmode).mpr hev⟩⟩

theorem rdLoadTargetsLocked_openWithSettings (hne : targets ≠ [])
    (hdecoded : ∀ t ∈ targets, t.decode.Decoded) {memdupRet : ℤ} (hret : memdupRet ≤ 0)
    (allocOk : Bool) :
    ((∀ t ∈ targets, t.absPc ≠ 0 ∧ ¬ t.SpIndexed) ∧
      rdLoadTargetsLocked (openWithSettings tgid st) (targets.map HotTarget.toUapi) memdupRet
        allocOk = (0, configuredWith tgid st targets)) ∨
    ((rdLoadTargetsLocked (openWithSettings tgid st) (targets.map HotTarget.toUapi) memdupRet
      allocOk).1 < 0 ∧
      (memdupRet = 0 → allocOk = true → ¬ ∀ t ∈ targets, t.absPc ≠ 0 ∧ ¬ t.SpIndexed)) := by
  have hvalid : (∃ t ∈ targets.map HotTarget.toUapi, rdValidateTarget t ≠ 0) ↔
      ¬ ∀ t ∈ targets, t.absPc ≠ 0 ∧ ¬ t.SpIndexed := by
    rw [not_forall₂]
    simp only [List.mem_map, exists_exists_and_eq_and]
    constructor
    · rintro ⟨t, ht, hbad⟩
      exact ⟨t, ht, mt (rdValidateTarget_toUapi (hdecoded t ht)).mpr hbad⟩
    · rintro ⟨t, ht, hbad⟩
      exact ⟨t, ht, mt (rdValidateTarget_toUapi (hdecoded t ht)).mp hbad⟩
  have hready : ¬ ((openWithSettings tgid st).configured = false ∨
      (openWithSettings tgid st).targetsLoaded = true) := by
    rintro (h | h)
    · cases h
    · cases h
  have hnil : targets.map HotTarget.toUapi ≠ [] := fun h => hne (List.map_eq_nil_iff.mp h)
  have hneg : -enomem < 0 ∧ -einval < 0 := by decide
  unfold rdLoadTargetsLocked
  rw [if_neg hready, if_neg hnil]
  split_ifs with hdup halloc hbad
  · exact .inr ⟨lt_of_le_of_ne hret hdup, fun h => absurd h hdup⟩
  · exact .inr ⟨hneg.1, fun _ h => by rw [halloc] at h; cases h⟩
  · exact .inr ⟨hneg.2, fun _ _ => hvalid.mp hbad⟩
  · exact .inl ⟨not_not.mp (mt hvalid.mpr hbad), rfl⟩

end Configure

/-! ## Loaded targets -/

section Load

variable {env : ConstructorEnv} {st : RdSettings} {loaded : LoadedTargets}

theorem decodeTarget_decoded {env : LoadEnv} {c : TargetCandidate} {t : HotTarget}
    (h : decodeTarget env c = .ok t) : t.decode.Decoded := by
  unfold decodeTarget at h
  obtain ⟨target, htarget, h⟩ := bind_eq_ok.mp h
  obtain ⟨absPc, -, h⟩ := bind_eq_ok.mp h
  cases h
  unfold decodeTargetViaObjdump at htarget
  dsimp only at htarget ⊢
  split_ifs at htarget
  generalize readDisassembly c.1 _ = found at htarget
  cases found with
  | none => cases htarget
  | some i =>
      rw [decodeInstruction] at htarget
      split_ifs at htarget
      obtain ⟨dec, hdec, htarget⟩ := bind_eq_ok.mp htarget
      cases htarget
      exact decodeFromAsmOperands_decoded hdec

theorem load_ok (h : env.load st = .ok loaded) : loaded.targets ≠ [] ∧
    loaded.targets.length ≤ st.bpCapacity.toNat ∧ ∀ t ∈ loaded.targets, t.decode.Decoded := by
  unfold ConstructorEnv.load at h
  cases hmanifest : env.manifest with
  | none =>
      rw [hmanifest] at h
      cases h
  | some manifest =>
      rw [hmanifest] at h
      dsimp only at h
      unfold loadTargets at h
      obtain ⟨m, -, h⟩ := bind_eq_ok.mp h
      split_ifs at h
      have hne : loaded.targets ≠ [] := by
        unfold chooseTargets at h
        split_ifs at h
        obtain ⟨r, -, h⟩ := bind_eq_ok.mp h
        split_ifs at h with hnil
        cases h
        exact hnil
      obtain ⟨tried, rest, -, -, htargets, -, -, -, -, hle⟩ := fillTargets_ok (chooseTargets_ok h)
      refine ⟨hne, hle (Nat.zero_le _), fun t ht => ?_⟩
      rw [htargets, List.nil_append] at ht
      obtain ⟨c, -, hc⟩ := List.mem_filterMap.mp ht
      cases hdec : decodeTarget (env.loadEnv st) c with
      | error e =>
          rw [hdec] at hc
          cases hc
      | ok target =>
          rw [hdec] at hc
          cases hc
          exact decodeTarget_decoded hdec

/-- The whole of `configure_session`. -/
theorem configureSession_spec (hst : readSettings env.environ = .ok st)
    (hloaded : env.load st = .ok loaded) :
    (∀ s, configureSession (rdWpctlOpen env.tgid) st loaded.targets env.configure = .ok s →
      s = configuredWith env.tgid st loaded.targets ∧ st.Accepted ∧
        ∀ t ∈ loaded.targets, t.absPc ≠ 0 ∧ ¬ t.SpIndexed) ∧
    (env.configure.AllOk → st.Accepted → (∀ t ∈ loaded.targets, t.absPc ≠ 0 ∧ ¬ t.SpIndexed) →
      configureSession (rdWpctlOpen env.tgid) st loaded.targets env.configure =
        .ok (configuredWith env.tgid st loaded.targets)) := by
  obtain ⟨hne, hle, hdecoded⟩ := load_ok hloaded
  obtain ⟨hok, hbad⟩ := @rdSessionConfigLocked_sessionCfg env.tgid st env.environ hst
  have hcount : (loaded.targets.map HotTarget.toUapi).take (loaded.targets.length % 2 ^ 32) =
      loaded.targets.map HotTarget.toUapi := by
    have hlt := st.bpCapacity.isLt
    rw [Nat.mod_eq_of_lt (by omega), ← List.length_map HotTarget.toUapi, List.take_length]
  have hret : (env.configure.memdup.map Subtype.val).getD 0 ≤ 0 := by
    cases env.configure.memdup with
    | none => exact le_rfl
    | some ret => exact ret.2.le
  have hload := @rdLoadTargetsLocked_openWithSettings env.tgid st loaded.targets hne hdecoded
    _ hret env.configure.allocOk
  unfold configureSession
  dsimp only [rdWpctlIoctl]
  rw [hcount]
  constructor
  · intro s hs
    cases hrefused : env.configure.configRefused with
    | some ret =>
        rw [hrefused] at hs
        rw [ioctlResult, if_pos ret.2] at hs
        cases hs
    | none =>
        rw [hrefused, ioctlResult] at hs
        by_cases haccepted : st.Accepted
        · rw [hok haccepted, if_neg (lt_irrefl 0)] at hs
          cases hloadRefused : env.configure.loadRefused with
          | some ret =>
              rw [hloadRefused, ioctlResult, if_pos ret.2] at hs
              cases hs
          | none =>
              rw [hloadRefused, ioctlResult] at hs
              rcases hload with ⟨hvalid, he⟩ | ⟨hneg, -⟩
              · rw [he, if_neg (lt_irrefl 0)] at hs
                cases hs
                exact ⟨rfl, haccepted, hvalid⟩
              · rw [if_pos hneg] at hs
                cases hs
        · have hneg : -einval < 0 := by decide
          rw [hbad haccepted, if_pos hneg] at hs
          cases hs
  · intro hall haccepted hvalid
    rw [hall.configRefused, ioctlResult, hok haccepted, if_neg (lt_irrefl 0), hall.loadRefused,
      ioctlResult]
    rcases hload with ⟨-, he⟩ | ⟨-, hnot⟩
    · rw [he, if_neg (lt_irrefl 0)]
      rfl
    · exact absurd hvalid (hnot (by rw [hall.memdup]; rfl) hall.allocOk)

end Load

/-! ## The session under the calls -/

namespace TargetedRd

def RunsFrom (s s' : Session) : Prop := ∃ es, s' = s.run es

theorem RunsFrom.refl (s : Session) : RunsFrom s s := ⟨[], rfl⟩

theorem RunsFrom.step {s s' : Session} (h : RunsFrom s s') (e : SessionEvent) :
    RunsFrom s (s'.step e) := by
  obtain ⟨es, rfl⟩ := h
  refine ⟨es ++ [e], ?_⟩
  unfold Session.run
  rw [List.foldl_append]
  rfl

theorem RunsFrom.trans {s s' s'' : Session} (h : RunsFrom s s') (h' : RunsFrom s' s'') :
    RunsFrom s s'' := by
  obtain ⟨es, rfl⟩ := h
  obtain ⟨es', rfl⟩ := h'
  refine ⟨es ++ es', ?_⟩
  unfold Session.run
  rw [List.foldl_append]

section Window

variable {s : Session} {c : Controller}

theorem RunsFrom.andThen {r : Outcome} (h : RunsFrom s r.controller.kernel)
    {f : Controller → Outcome}
    (hf : ∀ c, RunsFrom s c.kernel → RunsFrom s (f c).controller.kernel) :
    RunsFrom s (r.andThen f).controller.kernel := by
  unfold Outcome.andThen
  cases r.thrown with
  | some e => exact h
  | none => exact hf r.controller h

theorem RunsFrom.start (h : RunsFrom s c.kernel) :
    RunsFrom s c.startWindowLocked.controller.kernel := by
  unfold Controller.startWindowLocked
  split_ifs
  · exact h
  · exact RunsFrom.andThen (h.step (.ioctl .startWindow)) fun _ hc => hc

theorem RunsFrom.stop (h : RunsFrom s c.kernel) :
    RunsFrom s c.stopWindowLocked.controller.kernel := by
  unfold Controller.stopWindowLocked
  split_ifs
  · exact h
  · exact RunsFrom.andThen (h.step (.ioctl .stopWindow)) fun _ hc => hc

theorem RunsFrom.reset (h : RunsFrom s c.kernel) (mods : ℕ → ℕ → ℤ) :
    RunsFrom s (c.resetSessionLocked mods).controller.kernel := by
  unfold Controller.resetSessionLocked
  split_ifs
  · exact h
  · exact h.step (.ioctl (.resetSession mods))

theorem RunsFrom.kernelStart (h : RunsFrom s c.kernel) (mods : ℕ → ℕ → ℤ) :
    RunsFrom s (c.kernelStart mods).controller.kernel := by
  unfold Controller.kernelStart
  split_ifs
  · refine h.stop.andThen fun c hc => (hc.reset mods).andThen fun c hc => ?_
    exact hc.start.andThen fun _ hc => hc
  · dsimp only
    split_ifs
    · exact h
    · have hflags : RunsFrom s
          { c with explicitWindowSeen := true, autoFallbackActive := false }.kernel := h
      exact hflags.start

theorem RunsFrom.kernelStop (h : RunsFrom s c.kernel) :
    RunsFrom s c.kernelStop.controller.kernel := by
  unfold Controller.kernelStop
  split_ifs
  · exact h
  · exact h
  · exact h.stop

end Window

theorem device_releaseCpuLocked (q : Profiler) (cpu : ℕ) :
    (q.releaseCpuLocked cpu).device = q.device := by
  unfold Profiler.releaseCpuLocked
  split_ifs <;> rfl

theorem RunsFrom.bindThread {s : Session} {q : Profiler} (h : RunsFrom s q.device) (tid : ℤ)
    (o : BindOutcome) : RunsFrom s (q.bindThread tid o).2.device := by
  have hkernel : ∀ arg, RunsFrom s
      (ioctlResult q.device o.refused (rdRegisterThreadLocked q.device arg o.kernel)).2 := by
    intro arg
    cases o.refused with
    | some ret => exact h
    | none => exact h.step (.ioctl (.registerThread arg o.kernel))
  unfold Profiler.bindThread
  cases halloc : q.allocateCpuLocked o.statCpu with
  | none => exact h
  | some alloc =>
      obtain ⟨cpu, q'⟩ := alloc
      obtain ⟨-, rfl⟩ := Profiler.allocateCpuLocked_eq halloc
      dsimp only
      split_ifs
      · rw [device_releaseCpuLocked]
        exact h
      cases o.mmap with
      | none =>
          dsimp only
          rw [device_releaseCpuLocked]
          exact h
      | some region =>
          dsimp only
          split_ifs
          · rw [device_releaseCpuLocked, Profiler.munmap_eq]
            exact hkernel _
          · exact hkernel _

theorem RunsFrom.registerThreadLocked {s : Session} {q : Profiler} (h : RunsFrom s q.device)
    (tid : ℤ) (o : BindOutcome) : RunsFrom s (q.registerThreadLocked tid o).2.device := by
  unfold Profiler.registerThreadLocked
  cases q.threads tid with
  | none => exact h.bindThread tid o
  | some b =>
      dsimp only
      split_ifs
      · exact h
      · exact RunsFrom.bindThread (q := q.setBinding tid none) h tid o

theorem RunsFrom.unregisterThreadLocked {s : Session} {q : Profiler} (h : RunsFrom s q.device)
    (tid : ℤ) (refused : Option { ret : ℤ // ret < 0 }) :
    RunsFrom s (q.unregisterThreadLocked tid refused).2.device := by
  have hkernel : RunsFrom s
      (ioctlResult q.device refused (rdUnregisterThreadLocked q.device tid)).2 := by
    cases refused with
    | some ret => exact h
    | none => exact h.step (.ioctl (.unregisterThread tid))
  unfold Profiler.unregisterThreadLocked
  cases q.threads tid with
  | none => exact h
  | some b =>
      dsimp only
      split_ifs
      · exact h
      · exact hkernel
      · rw [Profiler.munmap_eq]
        change RunsFrom s ((_ : Profiler).releaseCpuLocked b.cpu).device
        rw [device_releaseCpuLocked]
        exact hkernel

/-- A call reaches the kernel as events of its session. -/
theorem runsFrom_step (p : TargetedRd) (call : RunCall) :
    RunsFrom p.device (p.step call).device := by
  have hrefl := RunsFrom.refl p.device
  cases call with
  | rdStart mods => exact RunsFrom.kernelStart (c := p.controller) hrefl mods
  | rdStop => exact RunsFrom.kernelStop (c := p.controller) hrefl
  | register tid o => exact RunsFrom.registerThreadLocked (q := p.toProfiler) hrefl tid o
  | unregister tid refused =>
      exact RunsFrom.unregisterThreadLocked (q := p.toProfiler) hrefl tid refused
  | hit k ht => exact hrefl.step (.hit k ht)

theorem runsFrom_run (p : TargetedRd) (calls : List RunCall) :
    RunsFrom p.device (p.run calls).device := by
  induction calls generalizing p with
  | nil => exact RunsFrom.refl _
  | cons call calls ih => exact (p.runsFrom_step call).trans (ih (p.step call))

/-! ## Initial threads -/

theorem bindThread_ok {q : Profiler} {tid : ℤ} {o : BindOutcome} {b : ThreadBinding}
    (h : (q.bindThread tid o).1 = .ok b) : b.active = true ∧
      (q.bindThread tid o).2.threads = Function.update q.threads tid (some b) := by
  revert h
  unfold Profiler.bindThread
  cases halloc : q.allocateCpuLocked o.statCpu with
  | none => exact fun h => by cases h
  | some alloc =>
      obtain ⟨cpu, q'⟩ := alloc
      obtain ⟨-, rfl⟩ := Profiler.allocateCpuLocked_eq halloc
      dsimp only
      split_ifs
      · exact fun h => by cases h
      cases o.mmap with
      | none => exact fun h => by cases h
      | some region =>
          dsimp only
          split_ifs
          · exact fun h => by cases h
          · rintro ⟨⟩
            exact ⟨rfl, rfl⟩

/-- A tid that is registered without an error holds a binding afterwards. -/
theorem registerThreadLocked_ok {q : Profiler} {tid : ℤ} {o : BindOutcome} {b : ThreadBinding}
    (h : (q.registerThreadLocked tid o).1 = .ok b) (tid' : ℤ) :
    (∃ b', (q.registerThreadLocked tid o).2.Holds tid' b') ↔
      (∃ b', q.Holds tid' b') ∨ tid' = tid := by
  have hbind : ∀ q' : Profiler, (q'.bindThread tid o).1 = .ok b →
      (∀ tid' ≠ tid, q'.threads tid' = q.threads tid') →
      ((∃ b', (q'.bindThread tid o).2.Holds tid' b') ↔ (∃ b', q.Holds tid' b') ∨ tid' = tid) := by
    intro q' hq' hothers
    obtain ⟨hactive, hthreads⟩ := bindThread_ok hq'
    unfold Profiler.Holds
    rw [hthreads]
    by_cases he : tid' = tid
    · rw [he, Function.update_self]
      exact iff_of_true ⟨b, rfl, hactive⟩ (.inr rfl)
    · rw [Function.update_of_ne he, hothers tid' he, or_iff_left he]
  revert h
  unfold Profiler.registerThreadLocked
  cases hb : q.threads tid with
  | none => exact fun h => hbind q h fun _ _ => rfl
  | some b' =>
      dsimp only
      split_ifs with hactive
      · intro _
        refine (or_iff_left_of_imp ?_).symm
        rintro rfl
        exact ⟨b', hb, hactive⟩
      · exact fun h => hbind _ h fun _ hne => Function.update_of_ne hne _ _

theorem registerInitialThreads_ok {p q : TargetedRd} {initial : List (ℤ × BindOutcome)}
    (h : p.registerInitialThreads initial = .ok q) :
    q.device.toSessionCtl = p.device.toSessionCtl ∧
    ∀ tid, (∃ b, q.Holds tid b) ↔ (∃ b, p.Holds tid b) ∨ tid ∈ initial.map Prod.fst := by
  induction initial generalizing p with
  | nil =>
      cases h
      exact ⟨rfl, fun tid => by simp⟩
  | cons t rest ih =>
      simp only [TargetedRd.registerInitialThreads] at h
      have hctl := ctl_registerThreadLocked p.toProfiler t.1 t.2
      have hheld := @registerThreadLocked_ok p.toProfiler t.1 t.2
      rcases hr : p.toProfiler.registerThreadLocked t.1 t.2 with ⟨e | b, q'⟩
      · rw [hr] at h
        cases h
      · rw [hr] at h hctl hheld
        obtain ⟨hctl', htids⟩ := ih h
        refine ⟨hctl'.trans hctl, fun tid => (htids tid).trans ?_⟩
        rw [List.map_cons, List.mem_cons, ← or_assoc]
        exact or_congr_left (hheld rfl tid)

theorem construct_ok {p q : TargetedRd} {initial : List (ℤ × BindOutcome)} (hp : p.Prepared)
    (h : p.construct initial = .ok q) :
    q.device.toSessionCtl = p.device.toSessionCtl.withRunning true ∧ q.autoFallbackActive = true ∧
    ∀ tid, tid ∈ q.device.activeTids ↔ tid ∈ initial.map Prod.fst := by
  have hcoherent := hp.coherent.construct h
  unfold TargetedRd.construct at h
  cases hreg : p.registerInitialThreads initial with
  | error e =>
      rw [hreg] at h
      cases h
  | ok q' =>
      rw [hreg] at h
      dsimp only at h
      obtain ⟨hctl, htids⟩ := registerInitialThreads_ok hreg
      have hq' := hp.coherent.registerInitialThreads hreg
      have hclosed : q'.controller.windowOpen = false := by
        refine hq'.window.trans ?_
        rw [congrArg SessionCtl.running hctl]
        exact hp.running
      rw [Controller.startWindowLocked_of_closed hclosed] at h
      cases h
      refine ⟨congrArg (SessionCtl.withRunning · true) hctl, rfl, fun tid => ?_⟩
      rw [← hcoherent.consistent.tids tid]
      refine (htids tid).trans (or_iff_right ?_)
      rintro ⟨b, hb, -⟩
      rw [hp.fresh.threads tid] at hb
      cases hb

end TargetedRd

/-! ## The constructor -/

section Constructor

variable {env : ConstructorEnv} {st : RdSettings} {loaded : LoadedTargets}

theorem configuredWith_reachable (hst : readSettings env.environ = .ok st)
    (hloaded : env.load st = .ok loaded) (haccepted : st.Accepted)
    (hvalid : ∀ t ∈ loaded.targets, t.absPc ≠ 0 ∧ ¬ t.SpIndexed) :
    (configuredWith env.tgid st loaded.targets).Reachable := by
  obtain ⟨hne, -, hdecoded⟩ := load_ok hloaded
  have hconfig := (@rdSessionConfigLocked_sessionCfg env.tgid st env.environ hst).1 haccepted
  have hload := (@rdLoadTargetsLocked_openWithSettings env.tgid st loaded.targets hne hdecoded
    0 le_rfl true).resolve_right fun h => h.2 rfl rfl hvalid
  refine ⟨env.tgid, [.ioctl (.configSession st.sessionCfg),
    .ioctl (.loadTargets (loaded.targets.map HotTarget.toUapi) 0 true)], ?_⟩
  change (rdLoadTargetsLocked (rdSessionConfigLocked (rdWpctlOpen env.tgid) st.sessionCfg).2
    _ 0 true).2 = _
  rw [hconfig]
  exact congrArg Prod.snd hload.2

theorem prepared_configuredWith
    (h : (configuredWith env.tgid st loaded.targets).Reachable) :
    (env.prepared st (configuredWith env.tgid st loaded.targets)).Prepared := by
  refine ⟨⟨?_, fun _ => rfl, rfl, h, rfl⟩, rfl, rfl, rfl⟩
  unfold Profiler.numCpus ConstructorEnv.prepared
  rw [List.length_replicate]

theorem targetedRdProfiler_ok (hst : readSettings env.environ = .ok st)
    (hloaded : env.load st = .ok loaded) {q : ConfiguredRd}
    (h : env.targetedRdProfiler = .ok q) :
    q.settings = st ∧ q.loaded = loaded ∧
    (configuredWith env.tgid st loaded.targets).Reachable ∧
    (env.prepared st (configuredWith env.tgid st loaded.targets)).construct env.initial =
      .ok q.toTargetedRd := by
  unfold ConstructorEnv.targetedRdProfiler at h
  rw [hst] at h
  obtain ⟨st', hst', h⟩ := bind_eq_ok.mp h
  cases hst'
  obtain ⟨-, -, h⟩ := bind_eq_ok.mp h
  rw [hloaded] at h
  obtain ⟨loaded', hloaded', h⟩ := bind_eq_ok.mp h
  cases hloaded'
  obtain ⟨device, hdevice, h⟩ := bind_eq_ok.mp h
  obtain ⟨rfl, haccepted, hvalid⟩ := (configureSession_spec hst hloaded).1 device hdevice
  obtain ⟨q', hq', h⟩ := bind_eq_ok.mp h
  cases h
  exact ⟨rfl, rfl, configuredWith_reachable hst hloaded haccepted hvalid,
    mapError_eq_ok.mp hq'⟩

/-- If no call is refused, the module turns a loaded configuration down only for a capacity that
wraps to zero, a target at address zero or one indexed by `sp`. A constructed profiler has the
parsed settings and the loaded targets in the kernel, and they stay there in every run, with a
breakpoint of every active thread at every target. -/
theorem constructor_configures (env : ConstructorEnv) (st : RdSettings) (loaded : LoadedTargets)
    (hst : readSettings env.environ = .ok st) (hloaded : env.load st = .ok loaded) :
    (env.configure.AllOk →
      ((∃ s, configureSession (rdWpctlOpen env.tgid) st loaded.targets env.configure = .ok s) ↔
        ¬ Wraps env.environ.rdWpCapacity ∧
        (st.callchainMode = .dwarf → ¬ Wraps env.environ.rdDwarfEventCapacity) ∧
        ∀ t ∈ loaded.targets, t.absPc ≠ 0 ∧ ¬ t.SpIndexed)) ∧
    ∀ q, env.targetedRdProfiler = .ok q → q.settings = st ∧ q.loaded = loaded ∧
      1 ≤ loaded.targets.length ∧ loaded.targets.length ≤ st.bpCapacity.toNat ∧
      q.toTargetedRd.Coherent ∧ q.windowOpen = true ∧ q.autoFallbackActive = true ∧
      (∀ tid, tid ∈ q.device.activeTids ↔ tid ∈ env.initial.map Prod.fst) ∧
      ∀ calls, ∃ b, (q.toTargetedRd.run calls).device.toSessionCtl =
          (configuredWith env.tgid st loaded.targets).toSessionCtl.withRunning b ∧
        ∀ th ∈ (q.toTargetedRd.run calls).device.threads, th.active = true →
          th.slots.length = st.watchpointCapacity.toNat ∧
          th.bpEvents = loaded.targets.map fun t => ⟨t.absPc, 4, b⟩ := by
  obtain ⟨hwp, -, -, hevents⟩ := readSettings_ok hst
  constructor
  · intro hall
    obtain ⟨hsound, hcomplete⟩ := configureSession_spec hst hloaded
    rw [← hwp, ← hevents]
    constructor
    · rintro ⟨s, hs⟩
      obtain ⟨-, haccepted, hvalid⟩ := hsound s hs
      exact ⟨haccepted.capacity, haccepted.events, hvalid⟩
    · rintro ⟨hcapacity, hcap, hvalid⟩
      exact ⟨_, hcomplete hall ⟨hcapacity, hcap⟩ hvalid⟩
  · intro q hq
    obtain ⟨hsettings, htargets, hreach, hconstruct⟩ := targetedRdProfiler_ok hst hloaded hq
    have hprepared := prepared_configuredWith hreach
    have hcoherent := hprepared.coherent.construct hconstruct
    obtain ⟨hctl, hauto, htids⟩ := TargetedRd.construct_ok hprepared hconstruct
    obtain ⟨hne, hle, -⟩ := load_ok hloaded
    refine ⟨hsettings, htargets, List.length_pos_iff.mpr hne, hle, hcoherent,
      hcoherent.window.trans (congrArg SessionCtl.running hctl), hauto, htids, fun calls => ?_⟩
    obtain ⟨es, hes⟩ := q.toTargetedRd.runsFrom_run calls
    have hloadedFlag : q.device.targetsLoaded = true :=
      congrArg SessionCtl.targetsLoaded hctl
    obtain ⟨b, hb⟩ := Session.run_params hloadedFlag es
    have hparams : (q.toTargetedRd.run calls).device.toSessionCtl =
        (configuredWith env.tgid st loaded.targets).toSessionCtl.withRunning b := by
      rw [hes, hb, hctl]
      rfl
    refine ⟨b, hparams, fun th hth ha => ?_⟩
    have hshaped := (hcoherent.run calls).consistent.reachable.shaped hth
    obtain ⟨arg, hframe⟩ := hshaped.of_live ha
    constructor
    · rw [hshaped.slots_length ha, hparams]
      rfl
    · have hbp : th.bpEvents = (newThread _ arg).bpEvents := congrArg Frame.bpEvents hframe
      rw [hbp, newThread_eq, hparams]
      change ((loaded.targets.map HotTarget.toUapi).map _).map _ = _
      rw [List.map_map, List.map_map]
      rfl

end Constructor

/-- One store at offset 0 of a file that is mapped at `0x400000`, and no setting but the file. -/
def smallConstructorEnv : ConstructorEnv where
  environ := ⟨some "/m".toList, none, none, none, none, none, none, none⟩
  nameprefix := "rd".toList
  exePath := "/a".toList
  infoOpens := true
  deviceErrno := none
  tgid := 1
  manifest := some (crowdedManifest 1)
  realpath := fun _ => none
  runCommand := crowdedEnv.run
  mapsLines := ["400000-500000 r-xp 0 08:01 7 /a".toList]
  iterate := id
  configure := ⟨none, none, none, true⟩
  isPin := true
  pageSize := 4096
  numCpus := 2
  initial := [(7, smallOutcome)]

theorem constructor_configures_small : ∃ st loaded q,
    readSettings smallConstructorEnv.environ = .ok st ∧
    smallConstructorEnv.load st = .ok loaded ∧ smallConstructorEnv.targetedRdProfiler = .ok q ∧
    (∃ s, configureSession (rdWpctlOpen 1) st loaded.targets smallConstructorEnv.configure =
      .ok s) ∧
    (q.toTargetedRd.Coherent ∧ q.windowOpen = true) ∧ 7 ∈ q.device.activeTids := by
  have hload : ((readSettings smallConstructorEnv.environ).bind fun st =>
      (smallConstructorEnv.load st).map fun r =>
        r.targets.map fun t => (t.absPc, t.decode.hasIndex)).toOption =
      some [(0x400000, false)] := by
    decide +kernel
  have hreturns : smallConstructorEnv.targetedRdProfiler.toOption.isSome = true := by
    decide +kernel
  cases hst : readSettings smallConstructorEnv.environ with
  | error e =>
      rw [hst] at hload
      cases hload
  | ok st =>
  cases hloaded : smallConstructorEnv.load st with
  | error e =>
      rw [hst, Except.bind, hloaded] at hload
      cases hload
  | ok loaded =>
  cases hq : smallConstructorEnv.targetedRdProfiler with
  | error e =>
      rw [hq] at hreturns
      cases hreturns
  | ok q =>
  rw [hst, Except.bind, hloaded] at hload
  have htargets : loaded.targets.map (fun t => (t.absPc, t.decode.hasIndex)) =
      [(0x400000, false)] := Option.some.inj hload
  have h := constructor_configures smallConstructorEnv st loaded hst hloaded
  obtain ⟨-, -, -, -, hcoherent, hwindow, -, htids, -⟩ := h.2 q hq
  have hunset : ∀ v : Option Text, v = none → ¬ Wraps v := by
    rintro v rfl ⟨t, ht, -⟩
    cases ht
  refine ⟨st, loaded, q, rfl, hloaded, rfl, ?_, ⟨hcoherent, hwindow⟩,
    (htids 7).mpr List.mem_cons_self⟩
  refine (h.1 ⟨rfl, rfl, rfl, rfl⟩).mpr ⟨hunset _ rfl, fun _ => hunset _ rfl, fun t ht => ?_⟩
  have hmem := List.mem_map_of_mem (f := fun t : HotTarget => (t.absPc, t.decode.hasIndex)) ht
  rw [htargets, List.mem_singleton, Prod.mk.injEq] at hmem
  rw [hmem.1]
  refine ⟨by decide, fun hsp => ?_⟩
  exact absurd (hmem.2.symm.trans hsp.1) (by decide)

end RdSpeTool
