import RdSpeTool.ResourceLog
import RdSpeTool.SessionInvariant

/-!
# What a registered thread holds

A registration takes a reference on the task, allocates the context and its arrays, and creates one
counter, a breakpoint for every target and a watchpoint for every slot. `rd_thread_destroy` has to
undo it from wherever the registration stopped. Handles stand for the pointers the kernel returns.
-/

namespace RdSpeTool

open ResourceLog

inductive KernelResource
  | task (t : ℕ)
  | event (e : ℕ)
  | memory (a : ℕ)
  deriving DecidableEq

structure Errno where
  code : ℕ
  pos : 0 < code

def Errno.ret (e : Errno) : ℤ := -e.code

inductive ThreadArray
  | bpEvents | wpEvents | log2Hist | pairHist | contexts | dwarfEvents | wpSeedDwarfSnapshots
  | wpReuseDwarfSnapshots | wpStates | wpIdleAddr | wpSeedVa | wpSeedAccess | wpSeedPcOffset
  | wpSeedContextId | wpAccessSize | wpTargetIndex | wpGeneration | wpSkipFirstHit | wpSamples
  deriving DecidableEq

namespace ThreadArray

/-- In the order of `rd_thread_setup_events`. -/
def allocated : List ThreadArray :=
  [bpEvents, wpEvents, log2Hist, pairHist, contexts, dwarfEvents, wpSeedDwarfSnapshots,
    wpReuseDwarfSnapshots, wpStates, wpIdleAddr, wpSeedVa, wpSeedAccess, wpSeedPcOffset,
    wpSeedContextId, wpAccessSize, wpTargetIndex, wpGeneration, wpSkipFirstHit, wpSamples]

/-- What `rd_thread_free_live` frees. -/
def live : List ThreadArray :=
  [bpEvents, wpEvents, wpStates, wpIdleAddr, wpSeedVa, wpSeedAccess, wpSeedPcOffset,
    wpSeedContextId, wpAccessSize, wpTargetIndex, wpGeneration, wpSkipFirstHit, wpSamples,
    wpSeedDwarfSnapshots, wpReuseDwarfSnapshots]

/-- What outlives a detached thread and is freed by `rd_thread_destroy`. -/
def results : List ThreadArray := [log2Hist, pairHist, contexts, dwarfEvents]

def wanted (mode : CallchainMode) : ThreadArray → Bool
  | dwarfEvents | wpSeedDwarfSnapshots | wpReuseDwarfSnapshots => mode = .dwarf
  | _ => true

theorem allocated_perm : allocated.Perm (live ++ results) := by decide

end ThreadArray

/-- The pointers of a `rd_thread_ctx`; the two event lists are the contents of their arrays. -/
structure ThreadCtx where
  self : ℕ
  tid : ℤ
  active : Bool
  liveDetached : Bool
  liveRefs : ℕ
  task : Option ℕ
  memEvent : Option ℕ
  arrays : ThreadArray → Option ℕ
  bpEvents : List (Option ℕ)
  wpEvents : List (Option ℕ)

structure RegisterAnswers where
  task : Option (ℕ × Task)
  nrCpuIds : ℤ
  thread : Option ℕ
  mem : Except Errno ℕ
  array : ThreadArray → Option ℕ
  bp : ℕ → Except Errno ℕ
  wp : ℕ → Except Errno ℕ

namespace RegisterAnswers

variable (ans : RegisterAnswers) (mode : CallchainMode)

def arrays (a : ThreadArray) : Option ℕ := if a.wanted mode then ans.array a else none

def arraysOk : Bool := ThreadArray.allocated.all fun a => !a.wanted mode || (ans.array a).isSome

end RegisterAnswers

namespace ThreadCtx

def alloc (self task : ℕ) (arg : ThreadRegister) : ThreadCtx where
  self := self
  tid := arg.tid
  active := true
  liveDetached := false
  liveRefs := 1
  task := some task
  memEvent := none
  arrays := fun _ => none
  bpEvents := []
  wpEvents := []

variable (c : SessionCtl) (ans : RegisterAnswers) (th : ThreadCtx)

/-- The array of breakpoints, filled as far as the loop came. -/
def withBpEvents (events : List ℕ) : ThreadCtx :=
  { th with bpEvents := filled c.targetCount events }

def withWpEvents (events : List ℕ) : ThreadCtx :=
  { th with wpEvents := filled c.wpCapacity events }

def setupWatchpoints : ℤ × ThreadCtx × List (Entry KernelResource) :=
  let (wps, failed) := acquireAll ans.wp 0 c.wpCapacity
  let th := th.withWpEvents c wps
  let log := wps.map fun e => .acquire (.event e)
  match failed with
  | some (_, e) => (e.ret, th, log)
  | none => (0, th, log)

def setupBreakpoints : ℤ × ThreadCtx × List (Entry KernelResource) :=
  let (bps, failed) := acquireAll ans.bp 0 c.targetCount
  let th := th.withBpEvents c bps
  let log := bps.map fun e => .acquire (.event e)
  match failed with
  | some (_, e) => (e.ret, th, log)
  | none =>
      let (ret, th, more) := th.setupWatchpoints c ans
      (ret, th, log ++ more)

def withArrays (mem : ℕ) : ThreadCtx :=
  let arrays := ans.arrays c.callchainMode
  { th with
      memEvent := some mem
      arrays := arrays
      bpEvents := if (arrays .bpEvents).isSome then filled c.targetCount [] else []
      wpEvents := if (arrays .wpEvents).isSome then filled c.wpCapacity [] else [] }

/-- The arrays are all tried before one check of them all. -/
def setupEvents : ℤ × ThreadCtx × List (Entry KernelResource) :=
  match ans.mem with
  | .error e => (e.ret, th, [])
  | .ok mem =>
      let th := th.withArrays c ans mem
      let log := .acquire (.event mem) ::
        (ThreadArray.allocated.filterMap th.arrays).map fun a => .acquire (.memory a)
      if ans.arraysOk c.callchainMode = false then (-enomem, th, log)
      else
        let (ret, th, more) := th.setupBreakpoints c ans
        (ret, th, log ++ more)

def liveResources : List KernelResource :=
  (th.memEvent.map .event).toList ++
    (if (th.arrays .bpEvents).isSome then th.bpEvents.filterMap (Option.map .event) else []) ++
    (if (th.arrays .wpEvents).isSome then th.wpEvents.filterMap (Option.map .event) else []) ++
    (ThreadArray.live.filterMap th.arrays).map .memory ++ (th.task.map .task).toList

def freeLive : ThreadCtx :=
  { th with
      memEvent := none
      bpEvents := []
      wpEvents := []
      arrays := fun a => if a ∈ ThreadArray.live then none else th.arrays a
      task := none }

def resources : List KernelResource :=
  th.liveResources ++ (ThreadArray.results.filterMap th.arrays).map .memory ++ [.memory th.self]

end ThreadCtx

/-- A registration: the return code, the context if there is a new one, and what was acquired and
released on the way. -/
def registerCtx (s : Session) (arg : ThreadRegister) (ans : RegisterAnswers) :
    ℤ × Option ThreadCtx × List (Entry KernelResource) :=
  if s.configured = false ∨ s.targetsLoaded = false then (-einval, none, [])
  else if (rdFindActiveThreadByTid s arg.tid).isSome then (-eexist, none, [])
  else if arg.scratchBase = 0 ∨ arg.scratchStride = 0 then (-einval, none, [])
  else
    match ans.task with
    | none => (-esrch, none, [])
    | some (t, task) =>
        let put : List (Entry KernelResource) := [.acquire (.task t), .release (.task t)]
        if task.tgid ≠ s.ownerTgid then (-eperm, none, put)
        else if rdCheckThreadAffinity task arg.cpu ans.nrCpuIds ≠ 0 then
          (rdCheckThreadAffinity task arg.cpu ans.nrCpuIds, none, put)
        else
          match ans.thread with
          | none => (-enomem, none, put)
          | some self =>
              let (ret, th, log) := (ThreadCtx.alloc self t arg).setupEvents s.toSessionCtl ans
              let log := [.acquire (.task t), .acquire (.memory self)] ++ log
              if ret ≠ 0 then (ret, none, log ++ th.resources.map .release)
              else (0, some th, log)

/-! ## Every acquisition is owned -/

namespace ThreadCtx

variable {c : SessionCtl} {ans : RegisterAnswers} {th : ThreadCtx} {log : List (Entry KernelResource)}

theorem resources_withBpEvents (harray : (th.arrays .bpEvents).isSome = true)
    (hempty : th.bpEvents.filterMap (Option.map KernelResource.event) = []) (events : List ℕ) :
    (th.resources ++ events.map KernelResource.event).Perm (th.withBpEvents c events).resources := by
  unfold resources liveResources withBpEvents
  simp only [if_pos harray, hempty, filterMap_filled]
  rw [← Multiset.coe_eq_coe]
  simp only [← Multiset.coe_add, List.append_nil]
  abel

theorem resources_withWpEvents (harray : (th.arrays .wpEvents).isSome = true)
    (hempty : th.wpEvents.filterMap (Option.map KernelResource.event) = []) (events : List ℕ) :
    (th.resources ++ events.map KernelResource.event).Perm (th.withWpEvents c events).resources := by
  unfold resources liveResources withWpEvents
  simp only [if_pos harray, hempty, filterMap_filled]
  rw [← Multiset.coe_eq_coe]
  simp only [← Multiset.coe_add, List.append_nil]
  abel

/-- However far a stage comes, the context owns what it acquired. -/
theorem setupWatchpoints_owned (h : Holds log th.resources)
    (harray : (th.arrays .wpEvents).isSome = true)
    (hempty : th.wpEvents.filterMap (Option.map KernelResource.event) = []) :
    Holds (log ++ (th.setupWatchpoints c ans).2.2) (th.setupWatchpoints c ans).2.1.resources := by
  have hacquired := h.acquire ((acquireAll ans.wp 0 c.wpCapacity).1.map .event)
  rw [List.map_map] at hacquired
  have hall := hacquired.perm (resources_withWpEvents (c := c) harray hempty _)
  unfold setupWatchpoints
  dsimp only
  cases (acquireAll ans.wp 0 c.wpCapacity).2 with
  | none => exact hall
  | some failed => exact hall

theorem setupBreakpoints_owned (h : Holds log th.resources)
    (hbp : (th.arrays .bpEvents).isSome = true) (hwp : (th.arrays .wpEvents).isSome = true)
    (hbpEmpty : th.bpEvents.filterMap (Option.map KernelResource.event) = [])
    (hwpEmpty : th.wpEvents.filterMap (Option.map KernelResource.event) = []) :
    Holds (log ++ (th.setupBreakpoints c ans).2.2) (th.setupBreakpoints c ans).2.1.resources := by
  have hacquired := h.acquire ((acquireAll ans.bp 0 c.targetCount).1.map .event)
  rw [List.map_map] at hacquired
  have hall := hacquired.perm (resources_withBpEvents (c := c) hbp hbpEmpty _)
  unfold setupBreakpoints
  dsimp only
  cases (acquireAll ans.bp 0 c.targetCount).2 with
  | none =>
      dsimp only
      rw [← List.append_assoc]
      exact setupWatchpoints_owned hall hwp hwpEmpty
  | some failed => exact hall

/-- A zeroed array, or none, has no events. -/
theorem filterMap_zeroed (b : Bool) (n : ℕ) :
    (if b = true then filled n ([] : List ℕ) else []).filterMap
      (Option.map KernelResource.event) = [] := by
  split_ifs
  · exact filterMap_filled _ n []
  · rfl

theorem resources_withArrays (self t mem : ℕ) (arg : ThreadRegister) :
    ([KernelResource.task t, .memory self] ++ KernelResource.event mem ::
        (ThreadArray.allocated.filterMap (ans.arrays c.callchainMode)).map
          KernelResource.memory).Perm
      ((alloc self t arg).withArrays c ans mem).resources := by
  have hsplit : ((ThreadArray.allocated.filterMap (ans.arrays c.callchainMode)).map
      KernelResource.memory).Perm
      ((ThreadArray.live.filterMap (ans.arrays c.callchainMode)).map .memory ++
        (ThreadArray.results.filterMap (ans.arrays c.callchainMode)).map .memory) := by
    rw [← List.map_append, ← List.filterMap_append]
    exact (ThreadArray.allocated_perm.filterMap _).map _
  unfold resources liveResources withArrays alloc
  simp only [filterMap_zeroed, ite_self, Option.map_some, Option.toList_some]
  rw [← Multiset.coe_eq_coe] at hsplit ⊢
  simp only [← Multiset.coe_add, ← Multiset.cons_coe, ← Multiset.singleton_add, hsplit,
    Multiset.coe_nil]
  abel

theorem arrays_of_ok {mode : CallchainMode} (h : ans.arraysOk mode = true) {a : ThreadArray}
    (ha : a ∈ ThreadArray.allocated) (hwanted : a.wanted mode = true) :
    (ans.arrays mode a).isSome = true := by
  have hall := List.all_eq_true.mp h a ha
  rw [hwanted] at hall
  unfold RegisterAnswers.arrays
  rw [if_pos hwanted]
  exact hall

/-- The whole set-up of a new context. -/
theorem setupEvents_owned (c : SessionCtl) (ans : RegisterAnswers) (self t : ℕ)
    (arg : ThreadRegister) :
    Holds ([.acquire (.task t), .acquire (.memory self)] ++
        ((alloc self t arg).setupEvents c ans).2.2)
      ((alloc self t arg).setupEvents c ans).2.1.resources := by
  have hnew : Holds [.acquire (.task t), .acquire (.memory self)] (alloc self t arg).resources :=
    List.Perm.refl _
  unfold setupEvents
  cases ans.mem with
  | error e => simpa using hnew
  | ok mem =>
      dsimp only
      have hfirst : Holds ([.acquire (.task t), .acquire (.memory self)] ++
          .acquire (.event mem) :: (ThreadArray.allocated.filterMap
            ((alloc self t arg).withArrays c ans mem).arrays).map fun a => .acquire (.memory a))
          ((alloc self t arg).withArrays c ans mem).resources := by
        refine Holds.perm ?_ (resources_withArrays self t mem arg)
        have hall := Holds.nil.acquire ([KernelResource.task t, .memory self] ++
          KernelResource.event mem :: (ThreadArray.allocated.filterMap
            (ans.arrays c.callchainMode)).map KernelResource.memory)
        rw [List.nil_append, List.nil_append] at hall
        simp only [List.map_append, List.map_cons, List.map_nil, List.map_map] at hall
        exact hall
      split_ifs with hok
      · exact hfirst
      · have hok' : ans.arraysOk c.callchainMode = true := by simpa using hok
        rw [← List.append_assoc]
        refine setupBreakpoints_owned hfirst ?_ ?_ ?_ ?_
        · exact arrays_of_ok (a := .bpEvents) hok' (by decide) rfl
        · exact arrays_of_ok (a := .wpEvents) hok' (by decide) rfl
        · exact filterMap_zeroed _ _
        · exact filterMap_zeroed _ _

end ThreadCtx

/-- A registration without a new context has given back all it acquired. -/
theorem registerCtx_balanced (s : Session) (arg : ThreadRegister) (ans : RegisterAnswers)
    (h : (registerCtx s arg ans).2.1 = none) :
    (acquired (registerCtx s arg ans).2.2).Perm (released (registerCtx s arg ans).2.2) := by
  have hput : ∀ t, (acquired ([.acquire (.task t), .release (.task t)] :
      List (Entry KernelResource))).Perm (released [.acquire (.task t), .release (.task t)]) :=
    fun t => List.Perm.refl _
  revert h
  unfold registerCtx
  dsimp only
  split_ifs
  · exact fun _ => List.Perm.refl _
  · exact fun _ => List.Perm.refl _
  · exact fun _ => List.Perm.refl _
  cases ans.task with
  | none => exact fun _ => List.Perm.refl _
  | some found =>
      obtain ⟨t, task⟩ := found
      dsimp only
      split_ifs
      · exact fun _ => hput t
      · exact fun _ => hput t
      cases ans.thread with
      | none => exact fun _ => hput t
      | some self =>
          have howned := ThreadCtx.setupEvents_owned s.toSessionCtl ans self t arg
          dsimp only
          split_ifs
          · intro _
            rw [← List.append_nil (ThreadCtx.resources _)] at howned
            exact howned.release.settled_iff.mpr rfl
          · intro h
            cases h

/-! ## The registration of a session -/

def answerRet {α : Type*} : Except Errno α → ℤ
  | .error e => e.ret
  | .ok _ => 0

namespace RegisterAnswers

variable (ans : RegisterAnswers) (c : SessionCtl)

def env : RegisterEnv where
  task := ans.task.map Prod.snd
  nrCpuIds := ans.nrCpuIds
  threadOk := ans.thread.isSome
  setup :=
    { memRet := answerRet ans.mem
      arraysOk := ans.arraysOk c.callchainMode
      bpRet := fun i => answerRet (ans.bp i)
      wpRet := fun i => answerRet (ans.wp i) }

end RegisterAnswers

theorem Errno.ret_ne_zero (e : Errno) : e.ret ≠ 0 := by
  have hpos := e.pos
  unfold Errno.ret
  omega

theorem firstError_eq_zero {f : ℕ → ℤ} {n : ℕ} (h : ∀ j < n, f j = 0) : firstError f n = 0 := by
  induction n with
  | zero => rfl
  | succ n ih =>
      rw [firstError, ih fun j hj => h j (Nat.lt_succ_of_lt hj)]
      simpa using h n (Nat.lt_succ_self n)

theorem firstError_eq_of_lt {f : ℕ → ℤ} {j n : ℕ} (hj : j < n) (hzero : ∀ q < j, f q = 0)
    (hne : f j ≠ 0) : firstError f n = f j := by
  induction n with
  | zero => exact absurd hj (Nat.not_lt_zero j)
  | succ n ih =>
      rw [firstError]
      rcases Nat.lt_succ_iff_lt_or_eq.mp hj with hlt | rfl
      · rw [ih hlt, if_pos hne]
      · rw [firstError_eq_zero hzero]
        simp

/-- The outcomes of a loop and the loop that stops at the first failure. -/
theorem firstError_acquireAll {α : Type*} (answer : ℕ → Except Errno α) (n : ℕ) :
    firstError (fun i => answerRet (answer i)) n =
      ((acquireAll answer 0 n).2.map fun failed => failed.2.ret).getD 0 := by
  have hok : ∀ i, (answer i).isOk = true → answerRet (answer i) = 0 := by
    intro i hi
    cases hans : answer i with
    | error e =>
        rw [hans] at hi
        cases hi
    | ok r => rfl
  obtain ⟨hnone, -, hall⟩ | ⟨j, hj, e, hsome, -, hbad, hall⟩ := acquireAll_cases answer 0 n
  · simp only [Nat.zero_add] at hall
    rw [hnone, firstError_eq_zero fun i hi => hok i (hall i hi)]
    rfl
  · simp only [Nat.zero_add] at hsome hbad hall
    have hret : answerRet (answer j) = e.ret := by rw [hbad]; rfl
    rw [hsome, firstError_eq_of_lt hj (fun q hq => hok q (hall q hq)) (by
      rw [hret]
      exact e.ret_ne_zero)]
    exact hret

theorem setupWatchpoints_ret (c : SessionCtl) (ans : RegisterAnswers) (th : ThreadCtx) :
    (th.setupWatchpoints c ans).1 = firstError (fun i => answerRet (ans.wp i)) c.wpCapacity := by
  rw [firstError_acquireAll]
  unfold ThreadCtx.setupWatchpoints
  dsimp only
  cases (acquireAll ans.wp 0 c.wpCapacity).2 with
  | none => rfl
  | some failed => rfl

theorem setupBreakpoints_ret (c : SessionCtl) (ans : RegisterAnswers) (th : ThreadCtx) :
    (th.setupBreakpoints c ans).1 =
      if firstError (fun i => answerRet (ans.bp i)) c.targetCount ≠ 0 then
        firstError (fun i => answerRet (ans.bp i)) c.targetCount
      else firstError (fun i => answerRet (ans.wp i)) c.wpCapacity := by
  rw [firstError_acquireAll ans.bp]
  unfold ThreadCtx.setupBreakpoints
  dsimp only
  cases (acquireAll ans.bp 0 c.targetCount).2 with
  | none => exact setupWatchpoints_ret c ans _
  | some failed => exact (if_pos failed.2.ret_ne_zero).symm

theorem setupEvents_fst (c : SessionCtl) (ans : RegisterAnswers) (th : ThreadCtx) :
    (th.setupEvents c ans).1 =
      if answerRet ans.mem ≠ 0 then answerRet ans.mem
      else if ans.arraysOk c.callchainMode = false then -enomem
      else (th.setupBreakpoints c ans).1 := by
  unfold ThreadCtx.setupEvents
  cases ans.mem with
  | error e => exact (if_pos e.ret_ne_zero).symm
  | ok mem =>
      dsimp only
      rw [if_neg (not_not.mpr (show answerRet (Except.ok mem : Except Errno ℕ) = 0 from rfl))]
      split_ifs
      · rfl
      · rw [setupBreakpoints_ret, setupBreakpoints_ret]

/-- The set-up returns what its outcomes say. -/
theorem setupEvents_ret (c : SessionCtl) (ans : RegisterAnswers) (th : ThreadCtx) (new : Thread) :
    rdThreadSetupEvents c new (ans.env c).setup =
      if (th.setupEvents c ans).1 = 0 then .ok (setupThread c new)
      else .error (th.setupEvents c ans).1 := by
  rw [setupEvents_fst, setupBreakpoints_ret]
  unfold rdThreadSetupEvents RegisterAnswers.env
  dsimp only
  by_cases hmem : answerRet ans.mem ≠ 0
  · simp only [if_pos hmem, if_neg hmem]
  by_cases hok : ans.arraysOk c.callchainMode = false
  · simp [hmem, hok, enomem]
  by_cases hbp : firstError (fun i => answerRet (ans.bp i)) c.targetCount ≠ 0
  · simp [hmem, hok, hbp]
  · simp [hmem, hok, hbp]

/-- The registration with resources refines the registration of the session: it returns the same
code, and there is a new context exactly when it is zero. -/
theorem registerCtx_refines (s : Session) (arg : ThreadRegister) (ans : RegisterAnswers) :
    (registerCtx s arg ans).1 = (rdRegisterThreadLocked s arg (ans.env s.toSessionCtl)).1 ∧
      ((registerCtx s arg ans).2.1 = none ↔ (registerCtx s arg ans).1 ≠ 0) := by
  unfold registerCtx rdRegisterThreadLocked
  by_cases hready : s.configured = false ∨ s.targetsLoaded = false
  · rw [if_pos hready, if_pos hready]
    simp [einval]
  rw [if_neg hready, if_neg hready]
  by_cases hfound : (rdFindActiveThreadByTid s arg.tid).isSome = true
  · rw [if_pos hfound, if_pos hfound]
    simp [eexist]
  rw [if_neg hfound, if_neg hfound]
  by_cases hscratch : arg.scratchBase = 0 ∨ arg.scratchStride = 0
  · rw [if_pos hscratch, if_pos hscratch]
    simp [einval]
  rw [if_neg hscratch, if_neg hscratch]
  unfold RegisterAnswers.env
  cases ans.task with
  | none => simp [esrch]
  | some found =>
      obtain ⟨t, task⟩ := found
      dsimp only [Option.map_some]
      by_cases htgid : task.tgid ≠ s.ownerTgid
      · simp [htgid, eperm]
      rw [if_neg htgid, if_neg htgid]
      by_cases haff : rdCheckThreadAffinity task arg.cpu ans.nrCpuIds ≠ 0
      · simp [haff]
      rw [if_neg haff, if_neg haff]
      cases ans.thread with
      | none => simp [enomem]
      | some self =>
          have hsetup := setupEvents_ret s.toSessionCtl ans (.alloc self t arg) (allocThread arg)
          unfold RegisterAnswers.env at hsetup
          dsimp only [Option.isSome_some] at hsetup ⊢
          rw [if_neg Bool.true_eq_false.mp, hsetup]
          by_cases hret : ((ThreadCtx.alloc self t arg).setupEvents s.toSessionCtl ans).1 = 0
          · simp [hret]
          · simp [hret]

end RdSpeTool
