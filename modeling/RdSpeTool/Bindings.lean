import RdSpeTool.Registry

/-!
# Thread bindings of the targeted profiler

`TargetedRdProfiler` keeps a map of thread bindings and a table of occupied CPUs beside the
contexts of the kernel session, and gives each binding a scratch mapping for idle watchpoints.
CPU choice, pinning, mapping and the ioctls can each fail; their outcomes come with the call.
-/

namespace RdSpeTool

structure ThreadBinding where
  tid : ℤ
  cpu : ℕ
  scratch : Option U64
  scratchBytes : ℕ
  scratchBase : U64
  scratchStride : U64
  active : Bool

/-- The part of the profiler that registration works on, with the kernel session behind its device
file and the scratch regions the process has mapped. -/
structure Profiler where
  isPin : Bool
  pageSize : ℕ
  watchpointCapacity : ℕ
  cpuOwner : List ℕ
  threads : ℤ → Option ThreadBinding
  mapped : List U64
  device : Session

inductive BindError
  | noFreeCpu
  | affinity
  | scratch
  | registerIoctl (ret : ℤ)
  | unregisterIoctl (ret : ℤ)

/-- The exception text; `strerror` renders the code of a failed ioctl. -/
def BindError.what (strerror : ℤ → String) : BindError → String
  | noFreeCpu => "targeted_rd cannot pin thread: no free CPU available"
  | affinity => "sched_setaffinity failed"
  | scratch => "mmap scratch watchpoint region failed"
  | registerIoctl ret => "RDKIOC_REGISTER_THREAD failed: " ++ strerror ret
  | unregisterIoctl ret => "RDKIOC_UNREGISTER_THREAD failed: " ++ strerror ret

/-- The result of an ioctl: refused before it reaches the session, or what the session answers. -/
def ioctlResult (s : Session) (refused : Option { ret : ℤ // ret < 0 }) (r : ℤ × Session) :
    ℤ × Session :=
  match refused with
  | some ret => (ret, s)
  | none => r

/-- What one registration meets. `statCpu` is the CPU read from the thread's `stat` file, negative
if there is none. An anonymous mapping without a fixed address is never placed at zero, and the
kernel's error codes are negative. -/
structure BindOutcome where
  statCpu : ℤ
  pinOk : Bool
  mmap : Option { base : U64 // base ≠ 0 }
  refused : Option { ret : ℤ // ret < 0 }
  kernel : RegisterEnv
  memRet_nonpos : kernel.setup.memRet ≤ 0
  bpRet_nonpos : ∀ i, kernel.setup.bpRet i ≤ 0
  wpRet_nonpos : ∀ i, kernel.setup.wpRet i ≤ 0

namespace Profiler

variable (p : Profiler)

def numCpus : ℕ := p.cpuOwner.length

def allocateCpuLocked (statCpu : ℤ) : Option (ℕ × Profiler) :=
  let start := if p.isPin ∧ 0 ≤ statCpu ∧ statCpu < p.numCpus then statCpu.toNat else 0
  let order := (List.range p.numCpus).map fun off => (start + off) % p.numCpus
  match order.find? fun cpu => p.cpuOwner[cpu]? = some 0 with
  | some cpu => some (cpu, { p with cpuOwner := p.cpuOwner.set cpu 1 })
  | none => none

def releaseCpuLocked (cpu : ℕ) : Profiler :=
  if cpu < p.numCpus then { p with cpuOwner := p.cpuOwner.set cpu 0 } else p

def munmap (scratch : Option U64) : Profiler :=
  match scratch with
  | some base => { p with mapped := p.mapped.filter (· ≠ base) }
  | none => p

def setBinding (tid : ℤ) (b : Option ThreadBinding) : Profiler :=
  { p with threads := Function.update p.threads tid b }

/-- Registration of a tid without a binding. Nothing can fail once the kernel has accepted the
thread, so the handler's `UNREGISTER_THREAD` is never issued. -/
def bindThread (tid : ℤ) (o : BindOutcome) : Except BindError ThreadBinding × Profiler :=
  match p.allocateCpuLocked o.statCpu with
  | none => (.error .noFreeCpu, p)
  | some (cpu, p) =>
      if o.pinOk = false then (.error .affinity, p.releaseCpuLocked cpu)
      else
        match o.mmap with
        | none => (.error .scratch, p.releaseCpuLocked cpu)
        | some ⟨base, _⟩ =>
            let p := { p with mapped := base :: p.mapped }
            let reg : ThreadRegister := ⟨tid, cpu, base, BitVec.ofNat 64 p.pageSize⟩
            let r := ioctlResult p.device o.refused (rdRegisterThreadLocked p.device reg o.kernel)
            let p := { p with device := r.2 }
            if r.1 < 0 then
              (.error (.registerIoctl r.1), (p.munmap (some base)).releaseCpuLocked cpu)
            else
              let binding : ThreadBinding :=
                { tid := tid, cpu := cpu, scratch := some base
                  scratchBytes := p.pageSize * p.watchpointCapacity, scratchBase := base
                  scratchStride := BitVec.ofNat 64 p.pageSize, active := true }
              (.ok binding, p.setBinding tid (some binding))

def registerThreadLocked (tid : ℤ) (o : BindOutcome) : Except BindError ThreadBinding × Profiler :=
  match p.threads tid with
  | some b => if b.active then (.ok b, p) else (p.setBinding tid none).bindThread tid o
  | none => p.bindThread tid o

def unregisterThreadLocked (tid : ℤ) (refused : Option { ret : ℤ // ret < 0 }) :
    Except BindError Unit × Profiler :=
  match p.threads tid with
  | none => (.ok (), p)
  | some b =>
      if b.active = false then (.ok (), p)
      else
        let r := ioctlResult p.device refused (rdUnregisterThreadLocked p.device tid)
        let p := { p with device := r.2 }
        if r.1 < 0 then (.error (.unregisterIoctl r.1), p)
        else
          (.ok (), ((p.munmap b.scratch).releaseCpuLocked b.cpu).setBinding tid
            (some { b with active := false, scratch := none, scratchBytes := 0 }))

end Profiler

/-- Calls of the profiler under its lock, and what else happens to its kernel session: windows,
resets and hits. -/
inductive BindingEvent
  | register (tid : ℤ) (o : BindOutcome)
  | unregister (tid : ℤ) (refused : Option { ret : ℤ // ret < 0 })
  | device (e : { e : SessionEvent // Session.OtherEvent e })

namespace Profiler

def step (p : Profiler) : BindingEvent → Profiler
  | .register tid o => (p.registerThreadLocked tid o).2
  | .unregister tid refused => (p.unregisterThreadLocked tid refused).2
  | .device e => { p with device := p.device.step e }

def run (p : Profiler) (es : List BindingEvent) : Profiler := es.foldl step p

structure Fresh (p : Profiler) : Prop where
  cpuOwner : p.cpuOwner = List.replicate p.numCpus 0
  threads : ∀ tid, p.threads tid = none
  mapped : p.mapped = []
  reachable : p.device.Reachable
  device : p.device.threads = []

/-- An active binding of the profiler. -/
def Holds (p : Profiler) (tid : ℤ) (b : ThreadBinding) : Prop :=
  p.threads tid = some b ∧ b.active = true

/-- The CPU table, the bindings, the mappings and the kernel agree. -/
structure Consistent (p : Profiler) : Prop where
  reachable : p.device.Reachable
  cpu_owned : ∀ tid b, p.Holds tid b → p.cpuOwner[b.cpu]? = some 1
  owner : ∀ c x : ℕ, p.cpuOwner[c]? = some x →
    x = 0 ∨ (x = 1 ∧ ∃ tid b, p.Holds tid b ∧ b.cpu = c)
  cpu_inj : ∀ tid tid' b b', p.Holds tid b → p.Holds tid' b' → b.cpu = b'.cpu → tid = tid'
  tids : ∀ tid, (∃ b, p.Holds tid b) ↔ tid ∈ p.device.activeTids
  mapped : ∀ a ∈ p.mapped, ∃ tid b, p.Holds tid b ∧ b.scratch = some a

variable {p : Profiler}

theorem allocateCpuLocked_eq {statCpu : ℤ} {cpu : ℕ} {p' : Profiler}
    (h : p.allocateCpuLocked statCpu = some (cpu, p')) :
    p.cpuOwner[cpu]? = some 0 ∧ p' = { p with cpuOwner := p.cpuOwner.set cpu 1 } := by
  unfold allocateCpuLocked at h
  dsimp only at h
  split at h
  · next c hfind =>
      obtain ⟨rfl, rfl⟩ := Prod.mk.inj (Option.some.inj h)
      exact ⟨by simpa using List.find?_some hfind, rfl⟩
  · cases h

theorem releaseCpuLocked_of_lt {cpu : ℕ} (h : cpu < p.cpuOwner.length) :
    p.releaseCpuLocked cpu = { p with cpuOwner := p.cpuOwner.set cpu 0 } := if_pos h

/-- Taking a free CPU and giving it back leaves the table as it was. -/
theorem releaseCpuLocked_set {cpu : ℕ} {q : Profiler} (hfree : p.cpuOwner[cpu]? = some 0)
    (hq : q.cpuOwner = p.cpuOwner.set cpu 1) :
    q.releaseCpuLocked cpu = { q with cpuOwner := p.cpuOwner } := by
  obtain ⟨hlt, h0⟩ := List.getElem?_eq_some_iff.mp hfree
  have hback : q.cpuOwner.set cpu 0 = p.cpuOwner := by
    rw [hq, List.set_set, ← h0, List.set_getElem_self]
  rw [releaseCpuLocked_of_lt (by simpa [hq] using hlt), hback]

theorem rdRegisterThreadLocked_nonpos (s : Session) (arg : ThreadRegister) (o : BindOutcome) :
    (rdRegisterThreadLocked s arg o.kernel).1 ≤ 0 := by
  have hfirst : ∀ (f : ℕ → ℤ) (n : ℕ), (∀ i, f i ≤ 0) → firstError f n ≤ 0 := by
    intro f n hf
    induction n with
    | zero => exact le_rfl
    | succ n ih =>
        simp only [firstError]
        split_ifs
        · exact ih
        · exact hf n
  have hsetup : ∀ c th ret, rdThreadSetupEvents c th o.kernel.setup = .error ret → ret ≤ 0 := by
    intro c th ret h
    unfold rdThreadSetupEvents at h
    split_ifs at h
    · exact Except.error.inj h ▸ o.memRet_nonpos
    · exact Except.error.inj h ▸ (by decide)
    · exact Except.error.inj h ▸ hfirst _ _ o.bpRet_nonpos
    · exact Except.error.inj h ▸ hfirst _ _ o.wpRet_nonpos
  by_cases hok : RegisterOk s arg o.kernel
  · rw [rdRegisterThreadLocked_of_ok hok]
  · obtain ⟨ret, he, hneg | herr⟩ := rdRegisterThreadLocked_of_not_ok hok
    · rw [he]
      exact hneg.le
    · rw [he]
      exact hsetup _ _ ret herr

theorem munmap_eq (p : Profiler) (scratch : Option U64) :
    p.munmap scratch = { p with mapped := p.mapped.filter fun a => scratch ≠ some a } := by
  cases scratch with
  | none => simp [munmap]
  | some base => simp [munmap, eq_comm]

/-- A registration that reports an error left the session as it was; otherwise it succeeded. -/
theorem ioctlResult_register (s : Session) (arg : ThreadRegister) (o : BindOutcome) :
    ((ioctlResult s o.refused (rdRegisterThreadLocked s arg o.kernel)).1 < 0 ∧
      (ioctlResult s o.refused (rdRegisterThreadLocked s arg o.kernel)).2 = s) ∨
    ((rdRegisterThreadLocked s arg o.kernel).1 = 0 ∧
      ioctlResult s o.refused (rdRegisterThreadLocked s arg o.kernel) =
        rdRegisterThreadLocked s arg o.kernel) := by
  cases o.refused with
  | some ret => exact Or.inl ⟨ret.2, rfl⟩
  | none =>
      by_cases hzero : (rdRegisterThreadLocked s arg o.kernel).1 = 0
      · exact Or.inr ⟨hzero, rfl⟩
      · refine Or.inl ⟨lt_of_le_of_ne (rdRegisterThreadLocked_nonpos s arg o) hzero, ?_⟩
        exact rdRegisterThreadLocked_snd_of_not_ok
          (mt (rdRegisterThreadLocked_eq_zero_iff s arg o.kernel).mpr hzero)

namespace Consistent

/-- Steps that keep the active bindings, the CPU table and the kernel's active tids. -/
theorem congr {q : Profiler} (h : p.Consistent) (hcpu : q.cpuOwner = p.cpuOwner)
    (hholds : ∀ tid b, q.Holds tid b ↔ p.Holds tid b) (hmapped : q.mapped ⊆ p.mapped)
    (hreach : q.device.Reachable) (htids : q.device.activeTids = p.device.activeTids) :
    q.Consistent := by
  refine ⟨hreach, ?_, ?_, ?_, ?_, ?_⟩
  · intro tid b hb
    rw [hcpu]
    exact h.cpu_owned tid b ((hholds tid b).mp hb)
  · intro c x hx
    rw [hcpu] at hx
    simpa only [hholds] using h.owner c x hx
  · intro tid tid' b b' hb hb'
    exact h.cpu_inj tid tid' b b' ((hholds tid b).mp hb) ((hholds tid' b').mp hb')
  · intro tid
    simp only [hholds, htids]
    exact h.tids tid
  · intro a ha
    simpa only [hholds] using h.mapped a (hmapped ha)

/-- Active bindings after one entry of the map was stored. -/
theorem holds_update {q : Profiler} {tid : ℤ} {b : Option ThreadBinding}
    (hq : q.threads = Function.update p.threads tid b) (tid' : ℤ) (b' : ThreadBinding) :
    q.Holds tid' b' ↔
      (tid' = tid ∧ b = some b' ∧ b'.active = true) ∨ (tid' ≠ tid ∧ p.Holds tid' b') := by
  unfold Holds
  rw [hq]
  by_cases he : tid' = tid
  · simp [he]
  · simp [he]

/-- Storing an inactive binding, or none, changes no active one. -/
theorem setInactive (h : p.Consistent) {tid : ℤ} (hnone : ∀ b, ¬ p.Holds tid b) :
    (p.setBinding tid none).Consistent := by
  refine h.congr rfl ?_ (fun _ ha => ha) h.reachable rfl
  intro tid' b'
  rw [holds_update (p := p) (b := none) rfl]
  constructor
  · rintro (⟨-, hb, -⟩ | hh)
    · cases hb
    · exact hh.2
  · intro hh
    refine Or.inr ⟨?_, hh⟩
    rintro rfl
    exact hnone b' hh

variable {q : Profiler} {tid : ℤ} {b : ThreadBinding}

/-- A new active binding on a CPU that was free. -/
theorem bind (h : p.Consistent) (hnone : ∀ b, ¬ p.Holds tid b)
    (hthreads : q.threads = Function.update p.threads tid (some b)) (hactive : b.active = true)
    (hfree : p.cpuOwner[b.cpu]? = some 0) (hcpu : q.cpuOwner = p.cpuOwner.set b.cpu 1) {base : U64}
    (hscratch : b.scratch = some base) (hmapped : q.mapped = base :: p.mapped)
    (hreach : q.device.Reachable)
    (htids : q.device.activeTids = p.device.activeTids ++ [tid]) : q.Consistent := by
  obtain ⟨hlt, -⟩ := List.getElem?_eq_some_iff.mp hfree
  have hself : q.Holds tid b := (holds_update hthreads tid b).mpr (Or.inl ⟨rfl, rfl, hactive⟩)
  have hold : ∀ tid' b', p.Holds tid' b' → q.Holds tid' b' := by
    intro tid' b' hh
    refine (holds_update hthreads tid' b').mpr (Or.inr ⟨?_, hh⟩)
    rintro rfl
    exact hnone b' hh
  have hcases : ∀ tid' b', q.Holds tid' b' → (tid' = tid ∧ b' = b) ∨ p.Holds tid' b' := by
    intro tid' b' hh
    rcases (holds_update hthreads tid' b').mp hh with ⟨he, hb, -⟩ | ⟨-, hh⟩
    · exact Or.inl ⟨he, (Option.some.inj hb).symm⟩
    · exact Or.inr hh
  have hother : ∀ tid' b', p.Holds tid' b' → b'.cpu ≠ b.cpu := by
    intro tid' b' hh he
    have hone := h.cpu_owned tid' b' hh
    rw [he, hfree] at hone
    cases hone
  refine ⟨hreach, ?_, ?_, ?_, ?_, ?_⟩
  · intro tid' b' hh
    rw [hcpu]
    rcases hcases tid' b' hh with ⟨-, rfl⟩ | hh
    · rw [List.getElem?_set_self hlt]
    · rw [List.getElem?_set_ne (hother tid' b' hh).symm]
      exact h.cpu_owned tid' b' hh
  · intro c x hx
    rw [hcpu] at hx
    by_cases hc : c = b.cpu
    · subst hc
      rw [List.getElem?_set_self hlt] at hx
      exact Or.inr ⟨(Option.some.inj hx).symm, tid, b, hself, rfl⟩
    · rw [List.getElem?_set_ne (Ne.symm hc)] at hx
      rcases h.owner c x hx with h0 | ⟨h1, tid', b', hh, he⟩
      · exact Or.inl h0
      · exact Or.inr ⟨h1, tid', b', hold tid' b' hh, he⟩
  · intro t1 t2 b1 b2 h1 h2 he
    rcases hcases t1 b1 h1 with ⟨rfl, rfl⟩ | h1 <;> rcases hcases t2 b2 h2 with ⟨rfl, rfl⟩ | h2
    · rfl
    · exact absurd he.symm (hother t2 b2 h2)
    · exact absurd he (hother t1 b1 h1)
    · exact h.cpu_inj t1 t2 b1 b2 h1 h2 he
  · intro tid'
    rw [htids, List.mem_append, List.mem_singleton, ← h.tids tid']
    constructor
    · rintro ⟨b', hh⟩
      rcases hcases tid' b' hh with ⟨rfl, -⟩ | hh
      · exact Or.inr rfl
      · exact Or.inl ⟨b', hh⟩
    · rintro (⟨b', hh⟩ | rfl)
      · exact ⟨b', hold tid' b' hh⟩
      · exact ⟨b, hself⟩
  · intro a ha
    rw [hmapped] at ha
    rcases List.mem_cons.mp ha with rfl | ha
    · exact ⟨tid, b, hself, hscratch⟩
    · obtain ⟨tid', b', hh, hs⟩ := h.mapped a ha
      exact ⟨tid', b', hold tid' b' hh, hs⟩

/-- Retiring an active binding frees its CPU and its mapping. -/
theorem unbind (h : p.Consistent) (hb : p.Holds tid b) {b' : ThreadBinding}
    (hthreads : q.threads = Function.update p.threads tid (some b')) (hoff : b'.active = false)
    (hcpu : q.cpuOwner = p.cpuOwner.set b.cpu 0)
    (hmapped : ∀ a ∈ q.mapped, a ∈ p.mapped ∧ b.scratch ≠ some a) (hreach : q.device.Reachable)
    (htids : q.device.activeTids = p.device.activeTids.erase tid) : q.Consistent := by
  obtain ⟨hlt, -⟩ := List.getElem?_eq_some_iff.mp (h.cpu_owned tid b hb)
  have hnew : ∀ t x, q.Holds t x ↔ t ≠ tid ∧ p.Holds t x := by
    intro t x
    rw [holds_update hthreads]
    constructor
    · rintro (⟨-, hx, ha⟩ | hh)
      · rw [← Option.some.inj hx, hoff] at ha
        cases ha
      · exact hh
    · exact Or.inr
  have hself : ∀ x, p.Holds tid x → x = b := fun x hx => Option.some.inj (hx.1.symm.trans hb.1)
  refine ⟨hreach, ?_, ?_, ?_, ?_, ?_⟩
  · intro t x hh
    obtain ⟨hne, hh⟩ := (hnew t x).mp hh
    have hcpu_ne : b.cpu ≠ x.cpu := fun he => hne (h.cpu_inj t tid x b hh hb he.symm)
    rw [hcpu, List.getElem?_set_ne hcpu_ne]
    exact h.cpu_owned t x hh
  · intro c x hx
    rw [hcpu] at hx
    by_cases hc : c = b.cpu
    · subst hc
      rw [List.getElem?_set_self hlt] at hx
      exact Or.inl (Option.some.inj hx).symm
    · rw [List.getElem?_set_ne (Ne.symm hc)] at hx
      rcases h.owner c x hx with h0 | ⟨h1, t, y, hh, he⟩
      · exact Or.inl h0
      · refine Or.inr ⟨h1, t, y, (hnew t y).mpr ⟨?_, hh⟩, he⟩
        rintro rfl
        rw [hself y hh] at he
        exact hc he.symm
  · intro t1 t2 b1 b2 h1 h2
    exact h.cpu_inj t1 t2 b1 b2 ((hnew t1 b1).mp h1).2 ((hnew t2 b2).mp h2).2
  · intro t
    simp only [hnew, htids, h.reachable.activeTids_nodup.mem_erase_iff, ← h.tids t,
      exists_and_left]
  · intro a ha
    obtain ⟨hmem, hne⟩ := hmapped a ha
    obtain ⟨t, x, hh, hs⟩ := h.mapped a hmem
    refine ⟨t, x, (hnew t x).mpr ⟨?_, hh⟩, hs⟩
    rintro rfl
    rw [hself x hh] at hs
    exact hne hs

theorem bindThread (h : p.Consistent) (hnone : ∀ b, ¬ p.Holds tid b) (o : BindOutcome) :
    (p.bindThread tid o).2.Consistent := by
  unfold Profiler.bindThread
  cases halloc : p.allocateCpuLocked o.statCpu with
  | none => exact h
  | some alloc =>
      obtain ⟨cpu, p'⟩ := alloc
      obtain ⟨hfree, rfl⟩ := allocateCpuLocked_eq halloc
      -- every failure gives the CPU back
      have hback : ∀ q : Profiler, q.cpuOwner = p.cpuOwner.set cpu 1 → q.threads = p.threads →
          q.mapped ⊆ p.mapped → q.device = p.device → (q.releaseCpuLocked cpu).Consistent := by
        intro q hcpu hthreads hmapped hdevice
        rw [releaseCpuLocked_set hfree hcpu]
        refine h.congr rfl ?_ hmapped ?_ ?_
        · intro tid' b'
          simp [Holds, hthreads]
        · exact hdevice ▸ h.reachable
        · exact congrArg Session.activeTids hdevice
      dsimp only
      split_ifs with hpin
      · exact hback _ rfl rfl (fun _ ha => ha) rfl
      cases o.mmap with
      | none => exact hback _ rfl rfl (fun _ ha => ha) rfl
      | some region =>
          obtain ⟨base, -⟩ := region
          dsimp only
          rcases ioctlResult_register p.device ⟨tid, cpu, base, BitVec.ofNat 64 p.pageSize⟩ o with
            ⟨hneg, hsame⟩ | ⟨hzero, hr⟩
          · rw [if_pos hneg, hsame]
            refine hback _ rfl rfl ?_ rfl
            intro a ha
            obtain ⟨hmem, hne⟩ := List.mem_filter.mp ha
            exact (List.mem_cons.mp hmem).resolve_left (by simpa using hne)
          · rw [hr, if_neg (by rw [hzero]; decide)]
            obtain ⟨-, htids⟩ := Session.activeTids_register hzero
            refine h.bind hnone rfl rfl hfree rfl rfl rfl ?_ htids
            exact h.reachable.step (.ioctl (.registerThread _ o.kernel))

theorem registerThreadLocked (h : p.Consistent) (tid : ℤ) (o : BindOutcome) :
    (p.registerThreadLocked tid o).2.Consistent := by
  unfold Profiler.registerThreadLocked
  cases hb : p.threads tid with
  | none =>
      refine h.bindThread ?_ o
      rintro b ⟨hb', -⟩
      rw [hb] at hb'
      cases hb'
  | some b =>
      dsimp only
      split_ifs with ha
      · exact h
      · have hnone : ∀ x, ¬ p.Holds tid x := by
          rintro x ⟨hx, hact⟩
          rw [Option.some.inj (hb.symm.trans hx)] at ha
          exact ha hact
        refine (h.setInactive hnone).bindThread ?_ o
        rintro x ⟨hx, -⟩
        simp [setBinding] at hx

/-- The kernel knows the tid of every active binding. -/
theorem rdUnregisterThreadLocked_eq_zero (h : p.Consistent) (hb : p.Holds tid b) :
    (rdUnregisterThreadLocked p.device tid).1 = 0 ∧
      (rdUnregisterThreadLocked p.device tid).2.activeTids = p.device.activeTids.erase tid := by
  rcases Session.activeTids_unregister h.reachable tid with ⟨-, hret, htids⟩ | ⟨hmem, -⟩
  · exact ⟨hret, htids⟩
  · exact absurd ((h.tids tid).mp ⟨b, hb⟩) hmem

theorem unregisterThreadLocked (h : p.Consistent) (tid : ℤ)
    (refused : Option { ret : ℤ // ret < 0 }) :
    (p.unregisterThreadLocked tid refused).2.Consistent := by
  unfold Profiler.unregisterThreadLocked
  cases hb : p.threads tid with
  | none => exact h
  | some b =>
      dsimp only
      split_ifs with hoff hret
      · exact h
      · -- refused: neither side changed
        cases refused with
        | some ret => exact h
        | none =>
            have hzero := (h.rdUnregisterThreadLocked_eq_zero ⟨hb, by simpa using hoff⟩).1
            simp only [ioctlResult, hzero] at hret
            omega
      · have hholds : p.Holds tid b := ⟨hb, by simpa using hoff⟩
        obtain ⟨hlt, -⟩ := List.getElem?_eq_some_iff.mp (h.cpu_owned tid b hholds)
        cases refused with
        | some ret => exact absurd ret.2 hret
        | none =>
            obtain ⟨-, htids⟩ := h.rdUnregisterThreadLocked_eq_zero hholds
            rw [munmap_eq, releaseCpuLocked_of_lt (by exact hlt)]
            refine h.unbind hholds rfl rfl rfl ?_ ?_ htids
            · intro a ha
              obtain ⟨hmem, hne⟩ := List.mem_filter.mp ha
              exact ⟨hmem, by simpa using hne⟩
            · exact h.reachable.step (.ioctl (.unregisterThread tid))

theorem step (h : p.Consistent) (e : BindingEvent) : (p.step e).Consistent := by
  cases e with
  | register tid o => exact h.registerThreadLocked tid o
  | unregister tid refused => exact h.unregisterThreadLocked tid refused
  | device e =>
      refine h.congr rfl (fun _ _ => Iff.rfl) (fun _ ha => ha) (h.reachable.step e) ?_
      exact Session.activeTids_other h.reachable e.2

theorem run (h : p.Consistent) (es : List BindingEvent) : (p.run es).Consistent := by
  induction es generalizing p with
  | nil => exact h
  | cons e es ih => exact ih (h.step e)

end Consistent

theorem Fresh.consistent (h : p.Fresh) : p.Consistent := by
  have hnone : ∀ tid b, ¬ p.Holds tid b := by
    rintro tid b ⟨hb, -⟩
    rw [h.threads tid] at hb
    cases hb
  refine ⟨h.reachable, fun tid b hb => absurd hb (hnone tid b), ?_,
    fun tid _ b _ hb => absurd hb (hnone tid b), ?_, ?_⟩
  · intro c x hx
    rw [h.cpuOwner] at hx
    exact Or.inl (List.eq_of_mem_replicate (List.mem_of_getElem? hx))
  · intro tid
    constructor
    · rintro ⟨b, hb⟩
      exact absurd hb (hnone tid b)
    · intro hmem
      rw [Session.activeTids, h.device] at hmem
      simp at hmem
  · intro a ha
    rw [h.mapped] at ha
    simp at ha

end Profiler

/-- Bindings, CPU table, scratch mappings and kernel contexts agree after every call. -/
theorem ownership_agrees (p : Profiler) (h : p.Fresh) (es : List BindingEvent) :
    (∀ c, (p.run es).cpuOwner[c]? = some 1 ↔
      ∃! tid, ∃ b, (p.run es).Holds tid b ∧ b.cpu = c) ∧
    (∀ tid tid' b b', (p.run es).Holds tid b → (p.run es).Holds tid' b' → b.cpu = b'.cpu →
      tid = tid') ∧
    (∀ tid, (∃ b, (p.run es).Holds tid b) ↔
      ∃ th ∈ (p.run es).device.threads, th.active = true ∧ th.tid = tid) ∧
    (∀ a ∈ (p.run es).mapped, ∃ tid b, (p.run es).Holds tid b ∧ b.scratch = some a) ∧
    ∀ tid b, (p.run es).Holds tid b →
      (rdUnregisterThreadLocked (p.run es).device tid).1 ≠ -enoent := by
  have hc := h.consistent.run es
  refine ⟨?_, hc.cpu_inj, ?_, hc.mapped, ?_⟩
  · intro c
    constructor
    · intro h1
      rcases hc.owner c 1 h1 with h0 | ⟨-, tid, b, hb, rfl⟩
      · cases h0
      · refine ⟨tid, ⟨b, hb, rfl⟩, ?_⟩
        rintro tid' ⟨b', hb', he⟩
        exact hc.cpu_inj tid' tid b' b hb' hb he
    · rintro ⟨tid, ⟨b, hb, rfl⟩, -⟩
      exact hc.cpu_owned tid b hb
  · intro tid
    rw [hc.tids tid, Session.mem_activeTids]
  · intro tid b hb
    rw [(hc.rdUnregisterThreadLocked_eq_zero hb).1]
    decide

def smallProfiler : Profiler where
  isPin := true
  pageSize := 4096
  watchpointCapacity := 1
  cpuOwner := [0, 0]
  threads := fun _ => none
  mapped := []
  device := (rdWpctlOpen 1).run ((smallSetup 0).take 2)

def smallOutcome : BindOutcome where
  statCpu := 0
  pinOk := true
  mmap := some ⟨0x7000, by decide⟩
  refused := none
  kernel := smallEnv
  memRet_nonpos := le_rfl
  bpRet_nonpos := fun _ => le_rfl
  wpRet_nonpos := fun _ => le_rfl

theorem ownership_agrees_small : smallProfiler.Fresh ∧
    (∀ tid, (∃ b, (smallProfiler.run [.register 7 smallOutcome]).Holds tid b) ↔
      ∃ th ∈ (smallProfiler.run [.register 7 smallOutcome]).device.threads,
        th.active = true ∧ th.tid = tid) := by
  have hfresh : smallProfiler.Fresh :=
    ⟨rfl, fun _ => rfl, rfl, ⟨1, (smallSetup 0).take 2, rfl⟩, rfl⟩
  exact ⟨hfresh, (ownership_agrees smallProfiler hfresh [.register 7 smallOutcome]).2.2.1⟩

end RdSpeTool
