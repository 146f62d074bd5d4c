import RdSpeTool.Registry
import RdSpeTool.ThreadResources

/-!
# Control ioctls and what they hold

The device serves any number of open files, each with a session. Beside the sessions the module has
one global list of live threads and holds references, events and memory. A control ioctl that fails
leaves all of it as it was.
-/

namespace RdSpeTool

open ResourceLog

structure KernelSession where
  session : Session
  ctxs : List ThreadCtx
  targetsMem : Option ℕ

/-- `rd_live_threads` names a thread by its file and its place in the session. -/
structure Kernel where
  sessions : ℕ → Option KernelSession
  live : List (ℕ × ℕ)
  held : Multiset KernelResource

inductive ControlIoctl
  | configSession (cfg : SessionCfg)
  | loadTargets (hasPtr : Bool) (targets : List Target) (memdup : Except Errno ℕ) (alloc : Option ℕ)
  | registerThread (arg : ThreadRegister) (ans : RegisterAnswers)
  | unregisterThread (tid : ℤ)
  | startWindow
  | stopWindow
  | resetSession (mods : ℕ → ℕ → ℤ)

def copyTargets : List Target → Option (List Target)
  | [] => some []
  | t :: ts => if rdValidateTarget t ≠ 0 then none else (copyTargets ts).map (t :: ·)

/-- `rd_thread_detach_live`, with no handler inside. -/
def ThreadCtx.detach (th : ThreadCtx) : ThreadCtx :=
  if th.liveDetached then th
  else { th with active := false, liveDetached := true, liveRefs := th.liveRefs - 1 }.freeLive

def ThreadCtx.detachResources (th : ThreadCtx) : List KernelResource :=
  if th.liveDetached then [] else th.liveResources

def ThreadCtx.closeResources (th : ThreadCtx) : List KernelResource :=
  if th.active then th.detachResources ++ th.detach.resources else th.resources

structure ControlOutcome where
  ret : ℤ
  session : KernelSession
  live : List (ℕ × ℕ)
  log : List (Entry KernelResource)

namespace KernelSession

variable (ks : KernelSession) (live : List (ℕ × ℕ))

def unchanged (ret : ℤ) (log : List (Entry KernelResource)) : ControlOutcome := ⟨ret, ks, live, log⟩

def loadTargets (hasPtr : Bool) (targets : List Target) (memdup : Except Errno ℕ)
    (alloc : Option ℕ) : ControlOutcome :=
  if ks.session.configured = false ∨ ks.session.targetsLoaded then ks.unchanged live (-einval) []
  else if hasPtr = false ∨ targets = [] then ks.unchanged live (-einval) []
  else
    match memdup with
    | .error e => ks.unchanged live e.ret []
    | .ok user =>
        match alloc with
        | none => ks.unchanged live (-enomem) [.acquire (.memory user), .release (.memory user)]
        | some mem =>
            let log : List (Entry KernelResource) := [.acquire (.memory user), .acquire (.memory mem)]
            match copyTargets targets with
            | none =>
                ks.unchanged live (-einval) (log ++ [.release (.memory mem), .release (.memory user)])
            | some copy =>
                ⟨0, { ks with
                    session := { ks.session with targets := copy, targetsLoaded := true }
                    targetsMem := some mem },
                  live, log ++ [.release (.memory user)]⟩

def registerThread (fd : ℕ) (arg : ThreadRegister) (ans : RegisterAnswers) : ControlOutcome :=
  match registerCtx ks.session arg ans with
  | (ret, none, log) => ks.unchanged live ret log
  | (ret, some th, log) =>
      ⟨ret, { ks with
          session := { ks.session with
            threads := ks.session.threads ++ [newThread ks.session.toSessionCtl arg] }
          ctxs := ks.ctxs ++ [th] },
        (fd, ks.ctxs.length) :: live, log⟩

def detachThread (fd k : ℕ) : ControlOutcome :=
  ⟨0, { ks with
      session := { ks.session with threads := ks.session.threads.modify k rdThreadDetachLive }
      ctxs := ks.ctxs.modify k ThreadCtx.detach },
    live.erase (fd, k), ((ks.ctxs[k]?.map ThreadCtx.detachResources).getD []).map .release⟩

def unregisterThread (fd : ℕ) (tid : ℤ) : ControlOutcome :=
  match rdFindActiveThreadByTid ks.session tid with
  | none => ks.unchanged live (-enoent) []
  | some k => ks.detachThread live fd k

/-- The dispatch; `copyOk` tells whether the argument could be copied from the caller. -/
def ioctl (fd : ℕ) (copyOk : Bool) : ControlIoctl → ControlOutcome
  | .configSession cfg =>
      if copyOk = false then ks.unchanged live (-efault) []
      else
        let r := rdSessionConfigLocked ks.session cfg
        ⟨r.1, { ks with session := r.2 }, live, []⟩
  | .loadTargets hasPtr targets memdup alloc =>
      if copyOk = false then ks.unchanged live (-efault) []
      else ks.loadTargets live hasPtr targets memdup alloc
  | .registerThread arg ans =>
      if copyOk = false then ks.unchanged live (-efault) []
      else ks.registerThread live fd arg ans
  | .unregisterThread tid =>
      if copyOk = false then ks.unchanged live (-efault) []
      else ks.unregisterThread live fd tid
  | .startWindow => ⟨0, { ks with session := ks.session.setWindow true }, live, []⟩
  | .stopWindow => ⟨0, { ks with session := ks.session.setWindow false }, live, []⟩
  | .resetSession mods =>
      let r := rdResetSessionLocked ks.session mods
      ⟨r.1, { ks with session := r.2 }, live, []⟩

end KernelSession

namespace Kernel

variable (K : Kernel)

def put (fd : ℕ) (o : ControlOutcome) : Kernel where
  sessions := Function.update K.sessions fd (some o.session)
  live := o.live
  held := settle K.held o.log

def ioctl (fd : ℕ) (copyOk : Bool) (cmd : ControlIoctl) :
    ℤ × Kernel × List (Entry KernelResource) :=
  match K.sessions fd with
  | none => (-einval, K, [])
  | some ks =>
      let o := ks.ioctl K.live fd copyOk cmd
      (o.ret, K.put fd o, o.log)

def openFile (fd : ℕ) (tgid : ℤ) : Kernel :=
  { K with sessions := Function.update K.sessions fd (some ⟨rdWpctlOpen tgid, [], none⟩) }

/-- `rd_wpctl_release`: active threads are detached first, then every context is destroyed. -/
def releaseFile (fd : ℕ) (ks : KernelSession) : Kernel where
  sessions := Function.update K.sessions fd none
  live := K.live.filter fun p => p.1 ≠ fd
  held := settle K.held ((ks.ctxs.flatMap ThreadCtx.closeResources ++
    (ks.targetsMem.map KernelResource.memory).toList).map .release)

end Kernel

/-! ## The sessions inside -/

/-- The same ioctl of the session alone. -/
def ControlIoctl.plain (c : SessionCtl) : ControlIoctl → Ioctl
  | .configSession cfg => .configSession cfg
  | .loadTargets hasPtr targets memdup alloc =>
      .loadTargets (if hasPtr then targets else []) (answerRet memdup) alloc.isSome
  | .registerThread arg ans => .registerThread arg (ans.env c)
  | .unregisterThread tid => .unregisterThread tid
  | .startWindow => .startWindow
  | .stopWindow => .stopWindow
  | .resetSession mods => .resetSession mods

/-- The copy loop fails exactly on an invalid target, and copies all otherwise. -/
theorem copyTargets_eq (ts : List Target) :
    copyTargets ts = if ∃ t ∈ ts, rdValidateTarget t ≠ 0 then none else some ts := by
  induction ts with
  | nil => simp [copyTargets]
  | cons t ts ih =>
      rw [copyTargets, ih]
      by_cases ht : rdValidateTarget t ≠ 0
      · simp [ht]
      · by_cases hts : ∃ u ∈ ts, rdValidateTarget u ≠ 0
        · simp [ht, hts]
        · simp [ht, hts]

namespace KernelSession

variable {ks : KernelSession} {live : List (ℕ × ℕ)}

theorem loadTargets_refines (hasPtr : Bool) (targets : List Target) (memdup : Except Errno ℕ)
    (alloc : Option ℕ) :
    ((ks.loadTargets live hasPtr targets memdup alloc).ret,
      (ks.loadTargets live hasPtr targets memdup alloc).session.session) =
    rdLoadTargetsLocked ks.session (if hasPtr then targets else []) (answerRet memdup)
      alloc.isSome := by
  unfold loadTargets rdLoadTargetsLocked unchanged
  by_cases hbusy : ks.session.configured = false ∨ ks.session.targetsLoaded = true
  · rw [if_pos hbusy, if_pos hbusy]
  rw [if_neg hbusy, if_neg hbusy]
  cases hasPtr with
  | false => simp
  | true =>
      by_cases hnil : targets = []
      · simp [hnil]
      cases memdup with
      | error e => simp [hnil, answerRet, e.ret_ne_zero]
      | ok user =>
          cases alloc with
          | none => simp [hnil, answerRet]
          | some mem =>
              rw [copyTargets_eq]
              by_cases hbad : ∃ t ∈ targets, rdValidateTarget t ≠ 0
              · simp [hnil, answerRet, hbad]
              · simp [hnil, answerRet, hbad]

theorem registerThread_refines (fd : ℕ) (arg : ThreadRegister) (ans : RegisterAnswers) :
    ((ks.registerThread live fd arg ans).ret, (ks.registerThread live fd arg ans).session.session) =
      rdRegisterThreadLocked ks.session arg (ans.env ks.session.toSessionCtl) := by
  obtain ⟨hret, hnone⟩ := registerCtx_refines ks.session arg ans
  have hok := rdRegisterThreadLocked_eq_zero_iff ks.session arg (ans.env ks.session.toSessionCtl)
  unfold registerThread unchanged
  generalize registerCtx ks.session arg ans = r at hret hnone
  obtain ⟨ret, th, log⟩ := r
  cases th with
  | none =>
      have hne := hnone.mp rfl
      rw [hret] at hne
      exact Prod.ext hret (rdRegisterThreadLocked_snd_of_not_ok (mt hok.mpr hne)).symm
  | some th =>
      have hzero : ret = 0 := by
        by_contra hne
        cases hnone.mpr hne
      rw [rdRegisterThreadLocked_of_ok (hok.mp (hret.symm.trans hzero)), ← hzero]

/-- With a readable argument, the session changes as the session alone would. -/
theorem ioctl_refines (fd : ℕ) (cmd : ControlIoctl) :
    ((ks.ioctl live fd true cmd).ret, (ks.ioctl live fd true cmd).session.session) =
      rdWpctlIoctl ks.session (cmd.plain ks.session.toSessionCtl) := by
  cases cmd with
  | configSession cfg => rfl
  | loadTargets hasPtr targets memdup alloc => exact loadTargets_refines hasPtr targets memdup alloc
  | registerThread arg ans => exact registerThread_refines fd arg ans
  | unregisterThread tid =>
      change ((ks.unregisterThread live fd tid).ret,
        (ks.unregisterThread live fd tid).session.session) = rdUnregisterThreadLocked ks.session tid
      unfold unregisterThread rdUnregisterThreadLocked
      cases rdFindActiveThreadByTid ks.session tid with
      | none => rfl
      | some k => rfl
  | startWindow => rfl
  | stopWindow => rfl
  | resetSession mods => rfl

end KernelSession

/-! ## Failed ioctls -/

/-- The operation left the session and the list alone and gave back what it took. -/
structure ControlOutcome.Idle (o : ControlOutcome) (ks : KernelSession) (live : List (ℕ × ℕ)) : Prop where
  session : o.session = ks
  live : o.live = live
  balanced : (acquired o.log).Perm (released o.log)

/-- An error; of a reset, that it was refused. -/
def ControlIoctl.Failed (ks : KernelSession) (ret : ℤ) : ControlIoctl → Prop
  | .resetSession _ => ks.session.running = true
  | _ => ret ≠ 0

namespace KernelSession

variable {ks : KernelSession} {live : List (ℕ × ℕ)}

theorem idle_unchanged {ret : ℤ} {log : List (Entry KernelResource)}
    (h : (acquired log).Perm (released log)) : (ks.unchanged live ret log).Idle ks live :=
  ⟨rfl, rfl, h⟩

theorem loadTargets_idle {hasPtr : Bool} {targets : List Target} {memdup : Except Errno ℕ}
    {alloc : Option ℕ} (h : (ks.loadTargets live hasPtr targets memdup alloc).ret ≠ 0) :
    (ks.loadTargets live hasPtr targets memdup alloc).Idle ks live := by
  revert h
  unfold loadTargets
  split_ifs
  · exact fun _ => idle_unchanged (List.Perm.refl _)
  · exact fun _ => idle_unchanged (List.Perm.refl _)
  cases memdup with
  | error e => exact fun _ => idle_unchanged (List.Perm.refl _)
  | ok user =>
      cases alloc with
      | none => exact fun _ => idle_unchanged (List.Perm.refl _)
      | some mem =>
          dsimp only
          cases copyTargets targets with
          | none => exact fun _ => idle_unchanged (List.Perm.swap _ _ _)
          | some copy => exact fun h => absurd rfl h

theorem registerThread_idle {fd : ℕ} {arg : ThreadRegister} {ans : RegisterAnswers}
    (h : (ks.registerThread live fd arg ans).ret ≠ 0) :
    (ks.registerThread live fd arg ans).Idle ks live := by
  have hnone := (registerCtx_refines ks.session arg ans).2
  have hbalanced := registerCtx_balanced ks.session arg ans
  revert h
  unfold registerThread
  generalize registerCtx ks.session arg ans = r at hnone hbalanced
  obtain ⟨ret, th, log⟩ := r
  cases th with
  | none => exact fun _ => idle_unchanged (hbalanced rfl)
  | some th =>
      intro h
      cases hnone.mpr h

theorem unregisterThread_idle {fd : ℕ} {tid : ℤ} (h : (ks.unregisterThread live fd tid).ret ≠ 0) :
    (ks.unregisterThread live fd tid).Idle ks live := by
  revert h
  unfold unregisterThread
  cases rdFindActiveThreadByTid ks.session tid with
  | none => exact fun _ => idle_unchanged (List.Perm.refl _)
  | some k => exact fun h => absurd rfl h

theorem rdSessionConfigLocked_of_error {s : Session} {cfg : SessionCfg}
    (h : (rdSessionConfigLocked s cfg).1 ≠ 0) : (rdSessionConfigLocked s cfg).2 = s := by
  revert h
  unfold rdSessionConfigLocked
  cases CallchainMode.ofCode cfg.callchainMode with
  | none =>
      dsimp only
      split_ifs <;> exact fun _ => rfl
  | some mode =>
      dsimp only
      split_ifs
      · exact fun _ => rfl
      · exact fun _ => rfl
      · exact fun _ => rfl
      · exact fun _ => rfl
      · exact fun h => absurd rfl h

theorem ioctl_idle {fd : ℕ} {copyOk : Bool} {cmd : ControlIoctl}
    (h : cmd.Failed ks (ks.ioctl live fd copyOk cmd).ret) :
    (ks.ioctl live fd copyOk cmd).Idle ks live := by
  cases cmd with
  | configSession cfg =>
      revert h
      unfold ioctl
      split_ifs
      · exact fun _ => idle_unchanged (List.Perm.refl _)
      · intro h
        exact ⟨congrArg (fun s => { ks with session := s }) (rdSessionConfigLocked_of_error h), rfl,
          List.Perm.refl _⟩
  | loadTargets hasPtr targets memdup alloc =>
      revert h
      unfold ioctl
      split_ifs
      · exact fun _ => idle_unchanged (List.Perm.refl _)
      · exact loadTargets_idle
  | registerThread arg ans =>
      revert h
      unfold ioctl
      split_ifs
      · exact fun _ => idle_unchanged (List.Perm.refl _)
      · exact registerThread_idle
  | unregisterThread tid =>
      revert h
      unfold ioctl
      split_ifs
      · exact fun _ => idle_unchanged (List.Perm.refl _)
      · exact unregisterThread_idle
  | startWindow => exact absurd rfl h
  | stopWindow => exact absurd rfl h
  | resetSession mods =>
      have hsame : rdResetSessionLocked ks.session mods = (-ebusy, ks.session) := if_pos h
      unfold ioctl
      dsimp only
      rw [hsame]
      exact ⟨rfl, rfl, List.Perm.refl _⟩

end KernelSession

/-- A control ioctl that fails, or a reset that is refused, leaves every session, the list of live
threads and everything the module holds as they were, and has released exactly once whatever it took
on the way. -/
theorem control_ioctl_atomic (K : Kernel) (fd : ℕ) (ks : KernelSession)
    (hks : K.sessions fd = some ks) (copyOk : Bool) (cmd : ControlIoctl)
    (h : cmd.Failed ks (K.ioctl fd copyOk cmd).1) :
    (K.ioctl fd copyOk cmd).2.1 = K ∧
      (acquired (K.ioctl fd copyOk cmd).2.2).Perm (released (K.ioctl fd copyOk cmd).2.2) ∧
      ∀ mods, cmd = .resetSession mods → (K.ioctl fd copyOk cmd).1 = -ebusy := by
  unfold Kernel.ioctl at h ⊢
  rw [hks] at h ⊢
  dsimp only at h ⊢
  obtain ⟨hsession, hlive, hbalanced⟩ := KernelSession.ioctl_idle h
  refine ⟨?_, hbalanced, ?_⟩
  · unfold Kernel.put
    rw [hsession, hlive, settle_of_perm K.held hbalanced, ← hks, Function.update_eq_self]
  · rintro mods rfl
    have hsame : rdResetSessionLocked ks.session mods = (-ebusy, ks.session) := if_pos h
    unfold KernelSession.ioctl
    dsimp only
    rw [hsame]

def noWatchpoint : RegisterAnswers where
  task := some (3, ⟨1, [0]⟩)
  nrCpuIds := 4
  thread := some 100
  mem := .ok 50
  array := fun a => some (200 + a.ctorIdx)
  bp := fun i => .ok (51 + i)
  wp := fun _ => .error ⟨28, by decide⟩

def oneFile : Kernel := ⟨fun _ => some ⟨preparedSession 0, [], none⟩, [], 0⟩

theorem control_ioctl_atomic_watchpoint :
    (oneFile.ioctl 0 true (.registerThread ⟨8, 0, 0x1000, 8⟩ noWatchpoint)).1 = -28 ∧
      (oneFile.ioctl 0 true (.registerThread ⟨8, 0, 0x1000, 8⟩ noWatchpoint)).2.1 = oneFile := by
  have hret : (oneFile.ioctl 0 true (.registerThread ⟨8, 0, 0x1000, 8⟩ noWatchpoint)).1 = -28 := by
    decide
  refine ⟨hret, (control_ioctl_atomic oneFile 0 _ rfl true _ ?_).1⟩
  change (oneFile.ioctl 0 true (.registerThread ⟨8, 0, 0x1000, 8⟩ noWatchpoint)).1 ≠ 0
  rw [hret]
  decide

end RdSpeTool
