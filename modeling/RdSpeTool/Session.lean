import RdSpeTool.HandlerCases

/-!
# Sessions and their control ioctls

A session is the state behind one open device file. Its events are the control ioctls, in any
order and with any arguments, and the hits of its threads. A detached thread stays in the list with
its results and without slots. Outcomes of allocations and of the perf subsystem come with the
event.
-/

namespace RdSpeTool

structure Task where
  tgid : ℤ
  cpusMask : List ℤ

/-- Outcomes met while a thread's events are created; zero is success. -/
structure SetupEnv where
  memRet : ℤ
  arraysOk : Bool
  bpRet : ℕ → ℤ
  wpRet : ℕ → ℤ

structure RegisterEnv where
  task : Option Task
  nrCpuIds : ℤ
  threadOk : Bool
  setup : SetupEnv

def firstError (f : ℕ → ℤ) : ℕ → ℤ
  | 0 => 0
  | n + 1 => if firstError f n ≠ 0 then firstError f n else f n

def allocThread (arg : ThreadRegister) : Thread where
  tid := arg.tid
  cpu := arg.cpu
  active := true
  liveDetached := false
  scratchBase := arg.scratchBase
  scratchStride := arg.scratchStride
  memEvent := none
  bpEvents := []
  slots := []
  log2Hist := []
  pairHist := []
  contexts := []
  dwarfEvents := none
  candidateSamples := 0
  reservoirSeen := 0
  reservoirAccepted := 0
  reservoirRejected := 0
  hits := 0
  evictions := 0
  dropped := 0
  pairHistUsed := 0
  pairHistDropped := 0
  contextUsed := 0
  contextDropped := 0
  callchainFailed := 0
  callchainTruncated := 0
  dwarfEventUsed := 0
  dwarfEventDropped := 0
  dwarfStackCopyFailed := 0
  rng := initialRng arg.tid

def freshSnapshot (c : SessionCtl) : Option DwarfSnapshot :=
  if c.callchainMode = .dwarf then some .zero else none

def freshSlot (c : SessionCtl) (base stride : U64) (i : ℕ) : Slot :=
  let idleAddr := base + BitVec.ofNat 64 i * stride
  { state := .idle, idleAddr := idleAddr, seedVa := 0, seedAccess := 0, seedPcOffset := 0
    accessSize := 0, targetIndex := 0, generation := 0, skipFirstHit := false, samples := 1
    wpEvent := ⟨idleAddr, idleWpLen, false⟩, seedContextId := 0
    seedSnapshot := freshSnapshot c, reuseSnapshot := freshSnapshot c }

def setupThread (c : SessionCtl) (th : Thread) : Thread :=
  { th with
      memEvent := some false
      bpEvents := c.targets.map fun t => ⟨t.absPc, 4, false⟩
      slots := (List.range c.wpCapacity).map (freshSlot c th.scratchBase th.scratchStride)
      log2Hist := List.replicate (c.targetCount * log2Buckets) 0
      pairHist := List.replicate maxPairHists .zero
      contexts := List.replicate maxContexts .zero
      dwarfEvents :=
        if c.callchainMode = .dwarf then some (List.replicate c.dwarfEventCapacity .zero)
        else none }

def rdThreadSetupEvents (c : SessionCtl) (th : Thread) (env : SetupEnv) : Except ℤ Thread :=
  if env.memRet ≠ 0 then .error env.memRet
  else if env.arraysOk = false then .error (-enomem)
  else if firstError env.bpRet c.targetCount ≠ 0 then .error (firstError env.bpRet c.targetCount)
  else if firstError env.wpRet c.wpCapacity ≠ 0 then .error (firstError env.wpRet c.wpCapacity)
  else .ok (setupThread c th)

def PerfEvent.setEnabled (b : Bool) (e : PerfEvent) : PerfEvent := { e with enabled := b }

/-- `rd_enable_thread_events` and `rd_disable_thread_events`. -/
def Thread.setEvents (b : Bool) (th : Thread) : Thread :=
  { th with
      memEvent := th.memEvent.map fun _ => b
      bpEvents := th.bpEvents.map (PerfEvent.setEnabled b)
      slots := th.slots.map fun s => { s with wpEvent := s.wpEvent.setEnabled b } }

def rdEnableThreadEvents (th : Thread) : Thread := th.setEvents true

def rdCheckThreadAffinity (task : Task) (cpu nrCpuIds : ℤ) : ℤ :=
  if cpu < 0 ∨ cpu ≥ nrCpuIds then -einval
  else if cpu ∉ task.cpusMask then -einval
  else if task.cpusMask.dedup.length ≠ 1 then -einval
  else 0

structure Session extends SessionCtl where
  threads : List Thread

def rdWpctlOpen (tgid : ℤ) : Session where
  ownerTgid := tgid
  running := false
  configured := false
  targetsLoaded := false
  wpCapacity := 0
  callchainMode := .off
  dwarfStackBytes := 0
  dwarfEventCapacity := 0
  bpSamplePeriod := 0
  targets := []
  threads := []

def rdFindActiveThreadByTid (s : Session) (tid : ℤ) : Option ℕ :=
  s.threads.findIdx? fun th => th.tid = tid ∧ th.active

def rdRegisterThreadLocked (s : Session) (arg : ThreadRegister) (env : RegisterEnv) : ℤ × Session :=
  if s.configured = false ∨ s.targetsLoaded = false then (-einval, s)
  else if (rdFindActiveThreadByTid s arg.tid).isSome then (-eexist, s)
  else if arg.scratchBase = 0 ∨ arg.scratchStride = 0 then (-einval, s)
  else
    match env.task with
    | none => (-esrch, s)
    | some task =>
        if task.tgid ≠ s.ownerTgid then (-eperm, s)
        else if rdCheckThreadAffinity task arg.cpu env.nrCpuIds ≠ 0 then
          (rdCheckThreadAffinity task arg.cpu env.nrCpuIds, s)
        else if env.threadOk = false then (-enomem, s)
        else
          match rdThreadSetupEvents s.toSessionCtl (allocThread arg) env.setup with
          | .error ret => (ret, s)
          | .ok th =>
              let th := if s.running then rdEnableThreadEvents th else th
              (0, { s with threads := s.threads ++ [th] })

/-- Armed slots become drops once no handler is left, then the live arrays go. -/
def rdThreadDetachLive (th : Thread) : Thread :=
  if th.liveDetached then th
  else
    { th with
        active := false
        liveDetached := true
        dropped := th.dropped + th.armedSlots
        memEvent := none
        bpEvents := []
        slots := [] }

def rdUnregisterThreadLocked (s : Session) (tid : ℤ) : ℤ × Session :=
  match rdFindActiveThreadByTid s tid with
  | none => (-enoent, s)
  | some k => (0, { s with threads := s.threads.modify k rdThreadDetachLive })

def rdSessionConfigLocked (s : Session) (cfg : SessionCfg) : ℤ × Session :=
  if s.configured ∨ s.targetsLoaded then (-ebusy, s)
  else if cfg.wpCapacity = 0 ∨ cfg.bpSamplePeriod = 0 then (-einval, s)
  else
    match CallchainMode.ofCode cfg.callchainMode with
    | none => (-einval, s)
    | some mode =>
        if cfg.dwarfStackBytes > maxDwarfStackBytes then (-einval, s)
        else if mode = .dwarf ∧ (cfg.dwarfStackBytes = 0 ∨ cfg.dwarfEventCapacity = 0) then
          (-einval, s)
        else
          (0, { s with
              wpCapacity := cfg.wpCapacity
              callchainMode := mode
              dwarfStackBytes := cfg.dwarfStackBytes
              dwarfEventCapacity := cfg.dwarfEventCapacity
              bpSamplePeriod := cfg.bpSamplePeriod
              configured := true })

/-- `memdupRet` is the outcome of copying the caller's table. -/
def rdLoadTargetsLocked (s : Session) (targets : List Target) (memdupRet : ℤ) (allocOk : Bool) :
    ℤ × Session :=
  if s.configured = false ∨ s.targetsLoaded then (-einval, s)
  else if targets = [] then (-einval, s)
  else if memdupRet ≠ 0 then (memdupRet, s)
  else if allocOk = false then (-enomem, s)
  else if ∃ t ∈ targets, rdValidateTarget t ≠ 0 then (-einval, s)
  else (0, { s with targets := targets, targetsLoaded := true })

def parkSlots (c : SessionCtl) (mods : ℕ → ℤ) : ℕ → Thread → Thread × ℤ
  | 0, th => (th, 0)
  | n + 1, th =>
      let prev := parkSlots c mods n th
      let idleAddr := (prev.1.slots[n]?.map fun s => s.idleAddr).getD 0
      let mod := rdModifySlot c prev.1 n idleAddr idleWpLen (mods n)
      (mod.1, if prev.2 = 0 then mod.2 else prev.2)

def Slot.reset (s : Slot) : Slot :=
  { s.clear with
      generation := 0
      reuseSnapshot := s.reuseSnapshot.map fun _ => .zero }

/-- Everything a reset does under the thread lock. -/
def Thread.wipe (th : Thread) : Thread :=
  { th with
      candidateSamples := 0
      reservoirSeen := 0
      reservoirAccepted := 0
      reservoirRejected := 0
      hits := 0
      evictions := 0
      dropped := 0
      pairHistUsed := 0
      pairHistDropped := 0
      contextUsed := 0
      contextDropped := 0
      callchainFailed := 0
      callchainTruncated := 0
      dwarfEventUsed := 0
      dwarfEventDropped := 0
      dwarfStackCopyFailed := 0
      rng := initialRng th.tid
      log2Hist := th.log2Hist.map fun _ => 0
      pairHist := th.pairHist.map fun _ => .zero
      contexts := th.contexts.map fun _ => .zero
      dwarfEvents := th.dwarfEvents.map fun es => es.map fun _ => .zero
      slots := th.slots.map Slot.reset }

def rdResetThreadLocked (c : SessionCtl) (th : Thread) (mods : ℕ → ℤ) : ℤ × Thread :=
  let parked := if th.active then parkSlots c mods c.wpCapacity th else (th, 0)
  (parked.2, parked.1.wipe)

def resetThreads (c : SessionCtl) (mods : ℕ → ℕ → ℤ) : ℕ → List Thread → ℤ × List Thread
  | _, [] => (0, [])
  | k, th :: rest =>
      let r := rdResetThreadLocked c th (mods k)
      let next := resetThreads c mods (k + 1) rest
      (if r.1 ≠ 0 then r.1 else next.1, r.2 :: next.2)

def rdResetSessionLocked (s : Session) (mods : ℕ → ℕ → ℤ) : ℤ × Session :=
  if s.running then (-ebusy, s)
  else
    let r := resetThreads s.toSessionCtl mods 0 s.threads
    (r.1, { s with threads := r.2 })

def Session.setWindow (s : Session) (b : Bool) : Session :=
  { s with
      running := b
      threads := s.threads.map fun th => if th.active then th.setEvents b else th }

inductive Ioctl
  | configSession (cfg : SessionCfg)
  | loadTargets (targets : List Target) (memdupRet : ℤ) (allocOk : Bool)
  | registerThread (arg : ThreadRegister) (env : RegisterEnv)
  | unregisterThread (tid : ℤ)
  | startWindow
  | stopWindow
  | resetSession (mods : ℕ → ℕ → ℤ)

def rdWpctlIoctl (s : Session) : Ioctl → ℤ × Session
  | .configSession cfg => rdSessionConfigLocked s cfg
  | .loadTargets targets memdupRet allocOk => rdLoadTargetsLocked s targets memdupRet allocOk
  | .registerThread arg env => rdRegisterThreadLocked s arg env
  | .unregisterThread tid => rdUnregisterThreadLocked s tid
  | .startWindow => (0, s.setWindow true)
  | .stopWindow => (0, s.setWindow false)
  | .resetSession mods => rdResetSessionLocked s mods

inductive Hit
  | bp (targetIndex : ℕ) (regs : Option PtRegs) (env : HitEnv)
  | wp (slotIndex : ℕ) (regs : Option PtRegs) (env : HitEnv)

def Hit.reading : Hit → Option U64
  | .bp _ _ env => env.memAccess
  | .wp _ _ env => env.memAccess

def Thread.hit (c : SessionCtl) (th : Thread) : Hit → Thread
  | .bp t regs env => rdHandleBpHit c th t regs env
  | .wp i regs env => rdHandleWpHit c th i regs env

inductive SessionEvent
  | ioctl (cmd : Ioctl)
  | hit (k : ℕ) (h : Hit)

namespace Session

def step (s : Session) : SessionEvent → Session
  | .ioctl cmd => (rdWpctlIoctl s cmd).2
  | .hit k h => { s with threads := s.threads.modify k fun th => th.hit s.toSessionCtl h }

def run (s : Session) (es : List SessionEvent) : Session := es.foldl step s

def Reachable (s : Session) : Prop := ∃ tgid es, (rdWpctlOpen tgid).run es = s

end Session

/-! ## A small session -/

def loadTarget : Target where
  pcOffset := 0x100
  absPc := 0x400100
  aggregatedSamples := 1
  decode :=
    { accessSize := 4, baseReg := 0, baseIsSp := false, hasImm := false, hasIndex := false
      indexIs32 := false, indexIsZero := false, extend := ExtendKind.none, shift := 0
      indexReg := 0, imm := 0 }

def smallConfig (mode : ℕ) : SessionCfg where
  wpCapacity := 1
  callchainMode := mode
  bpSamplePeriod := 1
  dwarfStackBytes := 16
  dwarfEventCapacity := 1

def smallThread : ThreadRegister := ⟨7, 0, 0x1000, 8⟩

def smallEnv : RegisterEnv where
  task := some ⟨1, [0]⟩
  nrCpuIds := 4
  threadOk := true
  setup := ⟨0, true, fun _ => 0, fun _ => 0⟩

/-- Process 1 configures one slot and one target and registers a thread. -/
def smallSetup (mode : ℕ) : List SessionEvent :=
  [.ioctl (.configSession (smallConfig mode)), .ioctl (.loadTargets [loadTarget] 0 true),
    .ioctl (.registerThread smallThread smallEnv)]

def preparedSession (mode : ℕ) : Session := (rdWpctlOpen 1).run (smallSetup mode)

def smallRun (mode : ℕ) : List SessionEvent := smallSetup mode ++ [.ioctl .startWindow]

def smallRegs : PtRegs := ⟨fun _ => 0x2000, 0x8000, 0x400200, 0⟩

def smallHitEnv (reading : U64) : HitEnv := ⟨some reading, ⟨fun _ => none, fun _ _ => false⟩, 0, 0⟩

def smallSession (mode : ℕ) : Session := (rdWpctlOpen 1).run (smallRun mode)

end RdSpeTool
