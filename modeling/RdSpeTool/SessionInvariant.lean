import RdSpeTool.Frame
import RdSpeTool.MeterSteps

/-!
# Invariants of reachable sessions

Parameters are fixed once a thread exists, and every thread keeps the shape it was registered
with. `ThreadInv` packages an induction over all events of a session: a property of a thread and
its session that holds at registration and survives hits, windows, resets and detaching holds in
every reachable session.
-/

namespace RdSpeTool

open ProbeTable

def newThread (c : SessionCtl) (arg : ThreadRegister) : Thread :=
  if c.running then rdEnableThreadEvents (setupThread c (allocThread arg))
  else setupThread c (allocThread arg)

def Thread.window (b : Bool) (th : Thread) : Thread := if th.active then th.setEvents b else th

def SessionCtl.withRunning (c : SessionCtl) (b : Bool) : SessionCtl := { c with running := b }

structure SessionCtl.Ready (c : SessionCtl) : Prop where
  configured : c.configured = true
  targetsLoaded : c.targetsLoaded = true
  wpCapacity_pos : 0 < c.wpCapacity
  targets_ne : c.targets ≠ []
  dwarfEventCapacity_pos : c.callchainMode = .dwarf → 0 < c.dwarfEventCapacity

/-- Parameters are validated before they are stored, and threads come last. -/
structure Session.WellFormed (s : Session) : Prop where
  configured : s.configured = true → 0 < s.wpCapacity ∧
    (s.callchainMode = .dwarf → 0 < s.dwarfEventCapacity)
  targetsLoaded : s.targetsLoaded = true → s.configured = true ∧ s.targets ≠ []
  threads : s.threads ≠ [] → s.targetsLoaded = true

theorem Session.WellFormed.ready {s : Session} (h : s.WellFormed) (hl : s.targetsLoaded = true) :
    s.toSessionCtl.Ready := by
  obtain ⟨hc, hne⟩ := h.targetsLoaded hl
  exact ⟨hc, hl, (h.configured hc).1, hne, (h.configured hc).2⟩

structure RegisterOk (s : Session) (arg : ThreadRegister) (env : RegisterEnv) : Prop where
  configured : s.configured = true
  targetsLoaded : s.targetsLoaded = true
  notFound : rdFindActiveThreadByTid s arg.tid = none
  scratch : ¬ (arg.scratchBase = 0 ∨ arg.scratchStride = 0)
  task : ∃ task, env.task = some task ∧ task.tgid = s.ownerTgid ∧
    rdCheckThreadAffinity task arg.cpu env.nrCpuIds = 0
  threadOk : env.threadOk = true
  memRet : env.setup.memRet = 0
  arraysOk : env.setup.arraysOk = true
  bpRet : firstError env.setup.bpRet s.targetCount = 0
  wpRet : firstError env.setup.wpRet s.wpCapacity = 0

theorem rdRegisterThreadLocked_of_ok {s : Session} {arg : ThreadRegister} {env : RegisterEnv}
    (h : RegisterOk s arg env) : rdRegisterThreadLocked s arg env =
      (0, { s with threads := s.threads ++ [newThread s.toSessionCtl arg] }) := by
  obtain ⟨task, htask, htgid, haff⟩ := h.task
  have hsetup : rdThreadSetupEvents s.toSessionCtl (allocThread arg) env.setup =
      .ok (setupThread s.toSessionCtl (allocThread arg)) := by
    simp [rdThreadSetupEvents, h.memRet, h.arraysOk, h.bpRet, h.wpRet]
  unfold rdRegisterThreadLocked
  rw [if_neg (by simp [h.configured, h.targetsLoaded]), if_neg (by simp [h.notFound]),
    if_neg h.scratch, htask]
  dsimp only
  rw [if_neg (by simp [htgid]), if_neg (by simp [haff]), if_neg (by simp [h.threadOk]), hsetup]
  rfl

theorem rdThreadSetupEvents_ok {c : SessionCtl} {th th' : Thread} {env : SetupEnv}
    (h : rdThreadSetupEvents c th env = .ok th') : env.memRet = 0 ∧ env.arraysOk = true ∧
      firstError env.bpRet c.targetCount = 0 ∧ firstError env.wpRet c.wpCapacity = 0 := by
  unfold rdThreadSetupEvents at h
  split_ifs at h with hmem harrays hbp hwp
  exact ⟨not_not.mp hmem, by simpa using harrays, not_not.mp hbp, not_not.mp hwp⟩

theorem rdThreadSetupEvents_ne_error_zero (c : SessionCtl) (th : Thread) (env : SetupEnv) :
    rdThreadSetupEvents c th env ≠ .error 0 := by
  unfold rdThreadSetupEvents
  intro h
  split_ifs at h with hmem harrays hbp hwp
  · exact hmem (Except.error.inj h)
  · cases h
  · exact hbp (Except.error.inj h)
  · exact hwp (Except.error.inj h)

theorem rdCheckThreadAffinity_neg {task : Task} {cpu nrCpuIds : ℤ}
    (h : rdCheckThreadAffinity task cpu nrCpuIds ≠ 0) :
    rdCheckThreadAffinity task cpu nrCpuIds < 0 := by
  revert h
  unfold rdCheckThreadAffinity
  split_ifs <;> simp [einval]

/-- A registration that misses something reports an error and changes nothing. -/
theorem rdRegisterThreadLocked_of_not_ok {s : Session} {arg : ThreadRegister} {env : RegisterEnv}
    (h : ¬ RegisterOk s arg env) : ∃ ret, rdRegisterThreadLocked s arg env = (ret, s) ∧
      (ret < 0 ∨ rdThreadSetupEvents s.toSessionCtl (allocThread arg) env.setup = .error ret) := by
  unfold rdRegisterThreadLocked
  by_cases hready : s.configured = false ∨ s.targetsLoaded = false
  · exact ⟨-einval, if_pos hready, Or.inl (by decide)⟩
  rw [if_neg hready]
  by_cases hfound : (rdFindActiveThreadByTid s arg.tid).isSome = true
  · exact ⟨-eexist, if_pos hfound, Or.inl (by decide)⟩
  rw [if_neg hfound]
  by_cases hscratch : arg.scratchBase = 0 ∨ arg.scratchStride = 0
  · exact ⟨-einval, if_pos hscratch, Or.inl (by decide)⟩
  rw [if_neg hscratch]
  cases htask : env.task with
  | none => exact ⟨-esrch, rfl, Or.inl (by decide)⟩
  | some task =>
      dsimp only
      by_cases htgid : task.tgid ≠ s.ownerTgid
      · exact ⟨-eperm, if_pos htgid, Or.inl (by decide)⟩
      rw [if_neg htgid]
      by_cases haff : rdCheckThreadAffinity task arg.cpu env.nrCpuIds ≠ 0
      · exact ⟨_, if_pos haff, Or.inl (rdCheckThreadAffinity_neg haff)⟩
      rw [if_neg haff]
      by_cases hok : env.threadOk = false
      · exact ⟨-enomem, if_pos hok, Or.inl (by decide)⟩
      rw [if_neg hok]
      cases hsetup : rdThreadSetupEvents s.toSessionCtl (allocThread arg) env.setup with
      | error ret => exact ⟨ret, rfl, Or.inr rfl⟩
      | ok th =>
          obtain ⟨hmem, harrays, hbp, hwp⟩ := rdThreadSetupEvents_ok hsetup
          simp only [not_or, Bool.not_eq_false] at hready
          exact absurd ⟨hready.1, hready.2, by simpa using hfound, hscratch,
            ⟨task, htask, not_not.mp htgid, not_not.mp haff⟩, by simpa using hok, hmem, harrays,
            hbp, hwp⟩ h

theorem rdRegisterThreadLocked_snd_of_not_ok {s : Session} {arg : ThreadRegister}
    {env : RegisterEnv} (h : ¬ RegisterOk s arg env) : (rdRegisterThreadLocked s arg env).2 = s := by
  obtain ⟨ret, he, -⟩ := rdRegisterThreadLocked_of_not_ok h
  rw [he]

/-- A registration fails without effect, or appends the new thread. -/
theorem rdRegisterThreadLocked_cases (s : Session) (arg : ThreadRegister) (env : RegisterEnv) :
    (rdRegisterThreadLocked s arg env).2 = s ∨
      (s.targetsLoaded = true ∧ rdRegisterThreadLocked s arg env =
        (0, { s with threads := s.threads ++ [newThread s.toSessionCtl arg] })) := by
  by_cases h : RegisterOk s arg env
  · exact Or.inr ⟨h.targetsLoaded, rdRegisterThreadLocked_of_ok h⟩
  · exact Or.inl (rdRegisterThreadLocked_snd_of_not_ok h)

theorem rdSessionConfigLocked_cases (s : Session) (cfg : SessionCfg) :
    (rdSessionConfigLocked s cfg).2 = s ∨
      ∃ mode, s.configured = false ∧ s.targetsLoaded = false ∧ 0 < cfg.wpCapacity ∧
        (mode = .dwarf → 0 < cfg.dwarfEventCapacity) ∧ (rdSessionConfigLocked s cfg).2 =
          { s with
              wpCapacity := cfg.wpCapacity
              callchainMode := mode
              dwarfStackBytes := cfg.dwarfStackBytes
              dwarfEventCapacity := cfg.dwarfEventCapacity
              bpSamplePeriod := cfg.bpSamplePeriod
              configured := true } := by
  unfold rdSessionConfigLocked
  by_cases hbusy : s.configured = true ∨ s.targetsLoaded = true
  · exact Or.inl (by rw [if_pos hbusy])
  rw [if_neg hbusy]
  simp only [not_or, Bool.not_eq_true] at hbusy
  by_cases hzero : cfg.wpCapacity = 0 ∨ cfg.bpSamplePeriod = 0
  · exact Or.inl (by rw [if_pos hzero])
  rw [if_neg hzero]
  cases CallchainMode.ofCode cfg.callchainMode with
  | none => exact Or.inl rfl
  | some mode =>
      dsimp only
      by_cases hbytes : cfg.dwarfStackBytes > maxDwarfStackBytes
      · exact Or.inl (by rw [if_pos hbytes])
      rw [if_neg hbytes]
      by_cases hdwarf : mode = .dwarf ∧ (cfg.dwarfStackBytes = 0 ∨ cfg.dwarfEventCapacity = 0)
      · exact Or.inl (by rw [if_pos hdwarf])
      rw [if_neg hdwarf]
      refine Or.inr ⟨mode, hbusy.1, hbusy.2, by omega, ?_, rfl⟩
      intro hm
      have hne := not_or.mp (fun h => hdwarf ⟨hm, h⟩)
      omega

theorem rdSessionConfigLocked_threads (s : Session) (cfg : SessionCfg) :
    (rdSessionConfigLocked s cfg).2.threads = s.threads := by
  rcases rdSessionConfigLocked_cases s cfg with he | ⟨mode, -, -, -, -, he⟩ <;> rw [he]

theorem rdLoadTargetsLocked_cases (s : Session) (targets : List Target) (memdupRet : ℤ)
    (allocOk : Bool) :
    (rdLoadTargetsLocked s targets memdupRet allocOk).2 = s ∨
      (s.configured = true ∧ s.targetsLoaded = false ∧ targets ≠ [] ∧
        (rdLoadTargetsLocked s targets memdupRet allocOk).2 =
          { s with targets := targets, targetsLoaded := true }) := by
  unfold rdLoadTargetsLocked
  split_ifs with hbusy hnil hdup halloc hbad
  · exact Or.inl rfl
  · exact Or.inl rfl
  · exact Or.inl rfl
  · exact Or.inl rfl
  · exact Or.inl rfl
  · simp only [not_or, Bool.not_eq_false, Bool.not_eq_true] at hbusy
    exact Or.inr ⟨hbusy.1, hbusy.2, hnil, rfl⟩

theorem rdLoadTargetsLocked_threads (s : Session) (targets : List Target) (memdupRet : ℤ)
    (allocOk : Bool) : (rdLoadTargetsLocked s targets memdupRet allocOk).2.threads = s.threads := by
  rcases rdLoadTargetsLocked_cases s targets memdupRet allocOk with he | ⟨-, -, -, he⟩ <;> rw [he]

/-- What one event can do to a thread that already exists, with its session's parameters. -/
inductive ThreadStep (c : SessionCtl) (th : Thread) : SessionCtl → Thread → Prop
  | same : ThreadStep c th c th
  | hit (h : Hit) (ha : th.active = true) : ThreadStep c th c (th.hit c h)
  | window (b : Bool) : ThreadStep c th (c.withRunning b) (th.window b)
  | reset (hr : c.running = false) (mods : ℕ → ℤ) :
      ThreadStep c th c (rdResetThreadLocked c th mods).2
  | detach (ha : th.active = true) : ThreadStep c th c (rdThreadDetachLive th)

inductive QuietStep (c : SessionCtl) (th : Thread) : SessionCtl → Thread → Prop
  | same : QuietStep c th c th
  | window (b : Bool) : QuietStep c th (c.withRunning b) (th.window b)
  | reset (hr : c.running = false) (mods : ℕ → ℤ) :
      QuietStep c th c (rdResetThreadLocked c th mods).2
  | detach (ha : th.active = true) : QuietStep c th c (rdThreadDetachLive th)

theorem QuietStep.threadStep {c c' : SessionCtl} {th th' : Thread} (h : QuietStep c th c' th') :
    ThreadStep c th c' th' := by
  cases h with
  | same => exact .same
  | window b => exact .window b
  | reset hr mods => exact .reset hr mods
  | detach ha => exact .detach ha

theorem hit_of_inactive (c : SessionCtl) {th : Thread} (ha : th.active = false) (h : Hit) :
    th.hit c h = th := by
  cases h with
  | wp i regs env =>
      change rdHandleWpHit c th i regs env = th
      unfold rdHandleWpHit
      rw [if_pos (Or.inl ha)]
  | bp t regs env =>
      obtain he | ⟨r, target, a, th', choice, h, -⟩ := rdHandleBpHit_cases c th t regs env
      · exact he
      · have hon := h.active
        rw [ha] at hon
        cases hon

theorem getElem?_resetThreads (c : SessionCtl) (mods : ℕ → ℕ → ℤ) (k : ℕ) (ths : List Thread)
    (j : ℕ) : (resetThreads c mods k ths).2[j]? =
      ths[j]?.map fun th => (rdResetThreadLocked c th (mods (k + j))).2 := by
  induction ths generalizing k j with
  | nil => simp [resetThreads]
  | cons th rest ih =>
      cases j with
      | zero => rfl
      | succ j =>
          have hk : k + 1 + j = k + (j + 1) := by omega
          simp only [resetThreads, List.getElem?_cons_succ, ih, hk]

namespace Session

variable {s : Session}

theorem step_wellFormed (hs : s.WellFormed) (e : SessionEvent) : (s.step e).WellFormed := by
  cases e with
  | hit k h => exact ⟨hs.configured, hs.targetsLoaded, fun hne => hs.threads (by
      intro hnil
      apply hne
      change s.threads.modify k _ = []
      rw [hnil, List.modify_nil])⟩
  | ioctl cmd =>
      change (rdWpctlIoctl s cmd).2.WellFormed
      cases cmd with
      | configSession cfg =>
          rcases rdSessionConfigLocked_cases s cfg with he | ⟨mode, hc, hl, hpos, hdwarf, he⟩
          · exact (congrArg WellFormed he).mpr hs
          · refine (congrArg WellFormed he).mpr ⟨fun _ => ⟨hpos, hdwarf⟩, ?_, hs.threads⟩
            intro hl'
            exact ⟨rfl, (hs.targetsLoaded hl').2⟩
      | loadTargets targets memdupRet allocOk =>
          rcases rdLoadTargetsLocked_cases s targets memdupRet allocOk with he | ⟨hc, -, hne, he⟩
          · exact (congrArg WellFormed he).mpr hs
          · exact (congrArg WellFormed he).mpr ⟨hs.configured, fun _ => ⟨hc, hne⟩, fun _ => rfl⟩
      | registerThread arg env =>
          rcases rdRegisterThreadLocked_cases s arg env with he | ⟨hl, he⟩
          · exact (congrArg WellFormed he).mpr hs
          · exact (congrArg (fun r : ℤ × Session => r.2.WellFormed) he).mpr
              ⟨hs.configured, hs.targetsLoaded, fun _ => hl⟩
      | unregisterThread tid =>
          change (rdUnregisterThreadLocked s tid).2.WellFormed
          unfold rdUnregisterThreadLocked
          cases rdFindActiveThreadByTid s tid with
          | none => exact hs
          | some k =>
              refine ⟨hs.configured, hs.targetsLoaded, fun hne => hs.threads ?_⟩
              intro hnil
              apply hne
              change s.threads.modify k _ = []
              rw [hnil, List.modify_nil]
      | startWindow =>
          exact ⟨hs.configured, hs.targetsLoaded, fun hne => hs.threads fun hnil =>
            hne (List.map_eq_nil_iff.mpr hnil)⟩
      | stopWindow =>
          exact ⟨hs.configured, hs.targetsLoaded, fun hne => hs.threads fun hnil =>
            hne (List.map_eq_nil_iff.mpr hnil)⟩
      | resetSession mods =>
          change (rdResetSessionLocked s mods).2.WellFormed
          unfold rdResetSessionLocked
          split_ifs
          · exact hs
          · refine ⟨hs.configured, hs.targetsLoaded, fun hne => hs.threads ?_⟩
            intro hnil
            apply hne
            change (resetThreads s.toSessionCtl mods 0 s.threads).2 = []
            rw [hnil]
            rfl

/-- A configured session keeps its callchain mode. -/
theorem step_callchainMode (hs : s.configured = true) (e : SessionEvent) :
    (s.step e).configured = true ∧ (s.step e).callchainMode = s.callchainMode := by
  have hsame : ∀ s' : Session, s' = s →
      s'.configured = true ∧ s'.callchainMode = s.callchainMode := by
    rintro s' rfl
    exact ⟨hs, rfl⟩
  cases e with
  | hit k h => exact ⟨hs, rfl⟩
  | ioctl cmd =>
      change (rdWpctlIoctl s cmd).2.configured = true ∧
        (rdWpctlIoctl s cmd).2.callchainMode = s.callchainMode
      cases cmd with
      | configSession cfg =>
          rcases rdSessionConfigLocked_cases s cfg with he | ⟨mode, hc, -⟩
          · exact hsame _ he
          · rw [hs] at hc
            cases hc
      | loadTargets targets memdupRet allocOk =>
          rcases rdLoadTargetsLocked_cases s targets memdupRet allocOk with he | ⟨-, -, -, he⟩
          · exact hsame _ he
          · simp only [rdWpctlIoctl, he]
            exact ⟨hs, trivial⟩
      | registerThread arg env =>
          rcases rdRegisterThreadLocked_cases s arg env with he | ⟨-, he⟩
          · exact hsame _ he
          · simp only [rdWpctlIoctl, he]
            exact ⟨hs, trivial⟩
      | unregisterThread tid =>
          simp only [rdWpctlIoctl, rdUnregisterThreadLocked]
          cases rdFindActiveThreadByTid s tid <;> exact ⟨hs, rfl⟩
      | startWindow => exact ⟨hs, rfl⟩
      | stopWindow => exact ⟨hs, rfl⟩
      | resetSession mods =>
          simp only [rdWpctlIoctl, rdResetSessionLocked]
          split_ifs <;> exact ⟨hs, rfl⟩

theorem run_callchainMode (hs : s.configured = true) (es : List SessionEvent) :
    (s.run es).callchainMode = s.callchainMode := by
  induction es generalizing s with
  | nil => rfl
  | cons e es ih =>
      obtain ⟨hc, hm⟩ := step_callchainMode hs e
      exact (ih hc).trans hm

theorem rdRegisterThreadLocked_thread (hs : s.WellFormed) {arg : ThreadRegister} {env : RegisterEnv}
    {k : ℕ} {th' : Thread} (h : (rdRegisterThreadLocked s arg env).2.threads[k]? = some th') :
    (∃ th, s.threads[k]? = some th ∧
      QuietStep s.toSessionCtl th (rdRegisterThreadLocked s arg env).2.toSessionCtl th') ∨
    (s.threads[k]? = none ∧ (rdRegisterThreadLocked s arg env).2.toSessionCtl.Ready ∧
      ∃ arg', th' = newThread (rdRegisterThreadLocked s arg env).2.toSessionCtl arg') := by
  rcases rdRegisterThreadLocked_cases s arg env with he | ⟨hl, he⟩
  · left
    rw [he] at h ⊢
    exact ⟨th', h, .same⟩
  · rw [he] at h ⊢
    change (s.threads ++ [newThread s.toSessionCtl arg])[k]? = some th' at h
    rcases lt_or_ge k s.threads.length with hlt | hge
    · left
      rw [List.getElem?_append_left hlt] at h
      exact ⟨th', h, .same⟩
    · right
      rw [List.getElem?_append_right hge, List.getElem?_singleton] at h
      split_ifs at h
      exact ⟨List.getElem?_eq_none hge, hs.ready hl, arg, (Option.some.inj h).symm⟩

theorem rdUnregisterThreadLocked_thread {tid : ℤ} {k : ℕ} {th' : Thread}
    (h : (rdUnregisterThreadLocked s tid).2.threads[k]? = some th') :
    ∃ th, s.threads[k]? = some th ∧
      QuietStep s.toSessionCtl th (rdUnregisterThreadLocked s tid).2.toSessionCtl th' := by
  unfold rdUnregisterThreadLocked at h ⊢
  cases hf : rdFindActiveThreadByTid s tid with
  | none =>
      rw [hf] at h
      exact ⟨th', h, .same⟩
  | some j =>
      rw [hf] at h
      obtain ⟨th, hth, ⟨rfl, he⟩ | ⟨-, he⟩⟩ := getElem?_modify_cases h
      · refine ⟨th, hth, ?_⟩
        obtain ⟨hj, hact, -⟩ := List.findIdx?_eq_some_iff_getElem.mp hf
        have hthj : s.threads[j] = th :=
          Option.some.inj ((List.getElem?_eq_getElem hj).symm.trans hth)
        rw [he]
        refine .detach ?_
        rw [hthj] at hact
        simpa using (of_decide_eq_true hact).2
      · exact ⟨th, hth, he ▸ .same⟩

theorem rdResetSessionLocked_thread {mods : ℕ → ℕ → ℤ} {k : ℕ} {th' : Thread}
    (h : (rdResetSessionLocked s mods).2.threads[k]? = some th') :
    ∃ th, s.threads[k]? = some th ∧
      QuietStep s.toSessionCtl th (rdResetSessionLocked s mods).2.toSessionCtl th' := by
  unfold rdResetSessionLocked at h ⊢
  by_cases hr : s.running = true
  · rw [if_pos hr] at h ⊢
    exact ⟨th', h, .same⟩
  · rw [if_neg hr] at h ⊢
    obtain ⟨th, hth, rfl⟩ := Option.map_eq_some_iff.mp ((getElem?_resetThreads ..).symm.trans h)
    exact ⟨th, hth, .reset (by simpa using hr) _⟩

/-- Every thread after an ioctl stood there before and took a quiet step, or was just registered. -/
theorem ioctl_thread (hs : s.WellFormed) (cmd : Ioctl) {k : ℕ} {th' : Thread}
    (h : (rdWpctlIoctl s cmd).2.threads[k]? = some th') :
    (∃ th, s.threads[k]? = some th ∧
      QuietStep s.toSessionCtl th (rdWpctlIoctl s cmd).2.toSessionCtl th') ∨
    (s.threads[k]? = none ∧ (rdWpctlIoctl s cmd).2.toSessionCtl.Ready ∧
      ∃ arg, th' = newThread (rdWpctlIoctl s cmd).2.toSessionCtl arg) := by
  have hsame : ∀ s' : Session, s' = s → s'.threads[k]? = some th' →
      ∃ th, s.threads[k]? = some th ∧ QuietStep s.toSessionCtl th s'.toSessionCtl th' := by
    rintro s' rfl h'
    exact ⟨th', h', .same⟩
  -- parameters are only written while there are no threads
  have hnone : s.targetsLoaded = false → s.threads[k]? ≠ some th' := by
    intro hl hk
    have hne : s.threads ≠ [] := List.ne_nil_of_mem (List.mem_of_getElem? hk)
    rw [hs.threads hne] at hl
    cases hl
  cases cmd with
  | configSession cfg =>
      rcases rdSessionConfigLocked_cases s cfg with he | ⟨mode, -, hl, -, -, he⟩
      · exact Or.inl (hsame _ he h)
      · have hk := (congrArg (fun s' : Session => s'.threads[k]?) he).symm.trans h
        exact absurd hk (hnone hl)
  | loadTargets targets memdupRet allocOk =>
      rcases rdLoadTargetsLocked_cases s targets memdupRet allocOk with he | ⟨-, hl, -, he⟩
      · exact Or.inl (hsame _ he h)
      · have hk := (congrArg (fun s' : Session => s'.threads[k]?) he).symm.trans h
        exact absurd hk (hnone hl)
  | registerThread arg env => exact rdRegisterThreadLocked_thread hs h
  | unregisterThread tid => exact Or.inl (rdUnregisterThreadLocked_thread h)
  | startWindow =>
      left
      obtain ⟨th, hth, rfl⟩ := Option.map_eq_some_iff.mp ((List.getElem?_map ..).symm.trans h)
      exact ⟨th, hth, .window true⟩
  | stopWindow =>
      left
      obtain ⟨th, hth, rfl⟩ := Option.map_eq_some_iff.mp ((List.getElem?_map ..).symm.trans h)
      exact ⟨th, hth, .window false⟩
  | resetSession mods => exact Or.inl (rdResetSessionLocked_thread h)

/-- Every thread after an event stood there before and took a step, or was just registered. -/
theorem step_thread (hs : s.WellFormed) (e : SessionEvent) {k : ℕ} {th' : Thread}
    (h : (s.step e).threads[k]? = some th') :
    (∃ th, s.threads[k]? = some th ∧
      ThreadStep s.toSessionCtl th (s.step e).toSessionCtl th') ∨
    (s.threads[k]? = none ∧ (s.step e).toSessionCtl.Ready ∧
      ∃ arg, th' = newThread (s.step e).toSessionCtl arg) := by
  cases e with
  | hit j ht =>
      left
      obtain ⟨th, hth, ⟨-, he⟩ | ⟨-, he⟩⟩ := getElem?_modify_cases h
      · refine ⟨th, hth, ?_⟩
        rw [he]
        cases ha : th.active with
        | true => exact .hit ht ha
        | false =>
            rw [hit_of_inactive s.toSessionCtl ha ht]
            exact .same
      · exact ⟨th, hth, he ▸ .same⟩
  | ioctl cmd =>
      rcases ioctl_thread hs cmd h with ⟨th, hth, hstep⟩ | hnew
      · exact Or.inl ⟨th, hth, hstep.threadStep⟩
      · exact Or.inr hnew

theorem Reachable.step (h : s.Reachable) (e : SessionEvent) :
    (s.step e).Reachable := by
  obtain ⟨tgid, es, rfl⟩ := h
  refine ⟨tgid, es ++ [e], ?_⟩
  unfold run
  rw [List.foldl_append]
  rfl

theorem Reachable.induction {P : Session → Prop} (hopen : ∀ tgid, P (rdWpctlOpen tgid))
    (hstep : ∀ s e, P s → P (s.step e)) (h : s.Reachable) : P s := by
  obtain ⟨tgid, es, rfl⟩ := h
  have hrun : ∀ (es : List SessionEvent) (s : Session), P s → P (s.run es) := by
    intro es
    induction es with
    | nil => exact fun s hs => hs
    | cons e es ih => exact fun s hs => ih (s.step e) (hstep s e hs)
  exact hrun es _ (hopen tgid)

theorem Reachable.wellFormed (h : s.Reachable) : s.WellFormed := by
  refine h.induction (fun tgid => ⟨?_, ?_, ?_⟩) fun s e hs => step_wellFormed hs e
  · intro hc
    cases hc
  · intro hl
    cases hl
  · intro hne
    exact absurd rfl hne

/-- A property that new threads have and every thread step keeps holds in reachable sessions. -/
theorem Reachable.thread_induction {I : SessionCtl → Thread → Prop}
    (hnew : ∀ c arg, c.Ready → I c (newThread c arg))
    (hstep : ∀ c th c' th', c.Ready → I c th → ThreadStep c th c' th' → I c' th')
    (h : s.Reachable) {th : Thread} (hth : th ∈ s.threads) : I s.toSessionCtl th := by
  have hall : s.WellFormed ∧ ∀ (k : ℕ) (th : Thread), s.threads[k]? = some th →
      I s.toSessionCtl th := by
    refine h.induction (P := fun s => s.WellFormed ∧ ∀ (k : ℕ) (th : Thread),
      s.threads[k]? = some th → I s.toSessionCtl th) ?_ ?_
    · intro tgid
      have hopen : (rdWpctlOpen tgid).Reachable := ⟨tgid, [], rfl⟩
      refine ⟨hopen.wellFormed, ?_⟩
      intro k th hk
      simp [rdWpctlOpen] at hk
    · rintro s e ⟨hs, hI⟩
      refine ⟨step_wellFormed hs e, ?_⟩
      intro k th' hk
      rcases step_thread hs e hk with ⟨th, hth, hts⟩ | ⟨-, hready, arg, rfl⟩
      · have hne : s.threads ≠ [] := List.ne_nil_of_mem (List.mem_of_getElem? hth)
        exact hstep _ th _ th' (hs.ready (hs.threads hne)) (hI k th hth) hts
      · exact hnew _ arg hready
  obtain ⟨k, hk⟩ := List.mem_iff_getElem?.mp hth
  exact hall.2 k th hk

end Session

end RdSpeTool
