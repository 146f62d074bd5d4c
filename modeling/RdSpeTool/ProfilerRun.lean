import RdSpeTool.Bindings
import RdSpeTool.Conservation
import RdSpeTool.Controller
import RdSpeTool.RunReport

/-!
# A run of the targeted profiler

The calls of one `TargetedRdProfiler` from the end of its constructor to its destructor: windows,
thread registration and the hits between them work on one kernel session. The destructor closes the
window, retires every thread and writes the report.
-/

namespace RdSpeTool

open KeyedFiles

structure TargetedRd extends Profiler where
  windowOpen : Bool
  autoFallbackActive : Bool
  explicitWindowSeen : Bool
  autoWindowDiscardedOnFirstExplicit : Bool
  callchainMode : CallchainMode

inductive RunError
  | window (e : RdException)
  | binding (e : BindError)
  | report (e : ReportError)

inductive RunCall
  | rdStart (mods : ℕ → ℕ → ℤ)
  | rdStop
  | register (tid : ℤ) (o : BindOutcome)
  | unregister (tid : ℤ) (refused : Option { ret : ℤ // ret < 0 })
  | hit (k : ℕ) (h : Hit)

namespace TargetedRd

variable (p : TargetedRd)

def controller : Controller :=
  ⟨p.windowOpen, p.autoFallbackActive, p.explicitWindowSeen, p.autoWindowDiscardedOnFirstExplicit,
    p.device, []⟩

def withController (c : Controller) : TargetedRd :=
  { p with
      windowOpen := c.windowOpen
      autoFallbackActive := c.autoFallbackActive
      explicitWindowSeen := c.explicitWindowSeen
      autoWindowDiscardedOnFirstExplicit := c.autoWindowDiscardedOnFirstExplicit
      device := c.kernel }

def withProfiler (q : Profiler) : TargetedRd := { p with toProfiler := q }

/-- A call; what it throws goes to the caller and leaves the profiler in use. -/
def step : RunCall → TargetedRd
  | .rdStart mods => p.withController (p.controller.kernelStart mods).controller
  | .rdStop => p.withController p.controller.kernelStop.controller
  | .register tid o => p.withProfiler (p.toProfiler.registerThreadLocked tid o).2
  | .unregister tid refused => p.withProfiler (p.toProfiler.unregisterThreadLocked tid refused).2
  | .hit k h => { p with device := p.device.step (.hit k h) }

def run (p : TargetedRd) (calls : List RunCall) : TargetedRd := calls.foldl step p

/-- `register_initial_threads`: the first thread that cannot be registered ends the constructor. -/
def registerInitialThreads (p : TargetedRd) : List (ℤ × BindOutcome) → Except RunError TargetedRd
  | [] => .ok p
  | (tid, o) :: rest =>
      match p.toProfiler.registerThreadLocked tid o with
      | (.error e, _) => .error (.binding e)
      | (.ok _, q) => registerInitialThreads (p.withProfiler q) rest

def construct (p : TargetedRd) (initial : List (ℤ × BindOutcome)) : Except RunError TargetedRd :=
  match p.registerInitialThreads initial with
  | .error e => .error e
  | .ok q =>
      match q.controller.startWindowLocked with
      | ⟨_, some e⟩ => .error (.window e)
      | ⟨c, none⟩ => .ok { q.withController c with autoFallbackActive := true }

/-- The destructor's loop over the bindings in the order of the map. -/
def closeThreads (refused : ℤ → Option { ret : ℤ // ret < 0 }) (q : Profiler) :
    List ℤ → Except BindError Unit × Profiler
  | [] => (.ok (), q)
  | tid :: rest =>
      if (q.threads tid).any ThreadBinding.active then
        match q.unregisterThreadLocked tid (refused tid) with
        | (.error e, q) => (.error e, q)
        | (.ok _, q) => closeThreads refused q rest
      else closeThreads refused q rest

def destroy (order : List ℤ) (refused : ℤ → Option { ret : ℤ // ret < 0 }) (env : ReportEnv) :
    Except RunError Report × TargetedRd :=
  let stopped := if p.windowOpen then p.controller.stopWindowLocked else ⟨p.controller, none⟩
  let p := p.withController stopped.controller
  match stopped.thrown with
  | some e => (.error (.window e), p)
  | none =>
      let closed := closeThreads refused p.toProfiler order
      let p := p.withProfiler closed.2
      match closed.1 with
      | .error e => (.error (.binding e), p)
      | .ok _ => ((writeReport p.device p.callchainMode env).mapError .report, p)

/-- The state at the start of `register_initial_threads`: a configured session without threads. -/
structure Prepared (p : TargetedRd) : Prop where
  fresh : p.Fresh
  windowOpen : p.windowOpen = false
  running : p.device.running = false
  mode : p.callchainMode = p.device.callchainMode

structure Coherent (p : TargetedRd) : Prop where
  consistent : p.Consistent
  window : p.windowOpen = p.device.running
  mode : p.callchainMode = p.device.callchainMode

/-! ## Window calls -/

/-- A controller whose kernel is that of `s` up to windows and resets. -/
structure Follows (s : Session) (c : Controller) : Prop where
  reachable : c.kernel.Reachable
  window : c.windowOpen = c.kernel.running
  mode : c.kernel.callchainMode = s.callchainMode
  tids : c.kernel.activeTids = s.activeTids

namespace Follows

variable {s : Session} {c : Controller}

theorem start (h : Follows s c) : Follows s c.startWindowLocked.controller ∧
    c.startWindowLocked.thrown = none ∧ c.startWindowLocked.controller.windowOpen = true := by
  cases hw : c.windowOpen with
  | true =>
      have hsame : c.startWindowLocked = ⟨c, none⟩ := if_pos hw
      rw [hsame]
      exact ⟨h, rfl, hw⟩
  | false =>
      rw [Controller.startWindowLocked_of_closed hw]
      have htids := Session.activeTids_other h.reachable (e := .ioctl .startWindow) trivial
      exact ⟨⟨h.reachable.step (.ioctl .startWindow), rfl, h.mode, htids.trans h.tids⟩, rfl, rfl⟩

theorem stop (h : Follows s c) : Follows s c.stopWindowLocked.controller ∧
    c.stopWindowLocked.thrown = none ∧ c.stopWindowLocked.controller.windowOpen = false := by
  cases hw : c.windowOpen with
  | false =>
      have hsame : c.stopWindowLocked = ⟨c, none⟩ := if_pos hw
      rw [hsame]
      exact ⟨h, rfl, hw⟩
  | true =>
      rw [Controller.stopWindowLocked_of_open hw]
      have htids := Session.activeTids_other h.reachable (e := .ioctl .stopWindow) trivial
      exact ⟨⟨h.reachable.step (.ioctl .stopWindow), rfl, h.mode, htids.trans h.tids⟩, rfl, rfl⟩

theorem reset (h : Follows s c) (mods : ℕ → ℕ → ℤ) :
    Follows s (c.resetSessionLocked mods).controller := by
  unfold Controller.resetSessionLocked
  split_ifs with hw
  · exact h
  have hclosed : c.kernel.running = false := by
    rw [← h.window]
    simpa using hw
  have htids := Session.activeTids_other h.reachable (e := .ioctl (.resetSession mods)) trivial
  have hctl : (rdResetSessionLocked c.kernel mods).2.toSessionCtl = c.kernel.toSessionCtl := by
    unfold rdResetSessionLocked
    split_ifs <;> rfl
  refine ⟨h.reachable.step (.ioctl (.resetSession mods)), ?_, ?_, htids.trans h.tids⟩
  · exact h.window.trans (congrArg SessionCtl.running hctl).symm
  · exact (congrArg SessionCtl.callchainMode hctl).trans h.mode

/-- Flags that only `TargetedRdProfiler` itself reads do not matter. -/
theorem congr (h : Follows s c) {c' : Controller} (hw : c'.windowOpen = c.windowOpen)
    (hk : c'.kernel = c.kernel) : Follows s c' :=
  ⟨hk ▸ h.reachable, by rw [hw, hk]; exact h.window, hk ▸ h.mode, hk ▸ h.tids⟩

theorem andThen {r : Outcome} (h : Follows s r.controller) {f : Controller → Outcome}
    (hf : ∀ c, Follows s c → Follows s (f c).controller) : Follows s (r.andThen f).controller := by
  unfold Outcome.andThen
  cases r.thrown with
  | some e => exact h
  | none => exact hf r.controller h

theorem kernelStart (h : Follows s c) (mods : ℕ → ℕ → ℤ) :
    Follows s (c.kernelStart mods).controller := by
  unfold Controller.kernelStart
  split_ifs
  · refine h.stop.1.andThen fun c hc => (hc.reset mods).andThen fun c hc => ?_
    exact hc.start.1.andThen fun c hc => hc.congr rfl rfl
  · have hflags : Follows s { c with explicitWindowSeen := true, autoFallbackActive := false } :=
      h.congr rfl rfl
    dsimp only
    split_ifs
    · exact hflags
    · exact hflags.start.1

theorem kernelStop (h : Follows s c) : Follows s c.kernelStop.controller := by
  unfold Controller.kernelStop
  split_ifs
  · exact h
  · exact h
  · exact h.stop.1

end Follows

theorem Coherent.follows {p : TargetedRd} (h : p.Coherent) : Follows p.device p.controller :=
  ⟨h.consistent.reachable, h.window, rfl, rfl⟩

/-- A window call keeps both levels in agreement. -/
theorem Coherent.withController {p : TargetedRd} (h : p.Coherent) {c : Controller}
    (hc : Follows p.device c) : (p.withController c).Coherent := by
  refine ⟨?_, hc.window, h.mode.trans hc.mode.symm⟩
  exact h.consistent.congr rfl (fun _ _ => Iff.rfl) (fun _ ha => ha) hc.reachable hc.tids

/-! ## Registration -/

theorem ctl_registerThreadLocked (q : Profiler) (tid : ℤ) (o : BindOutcome) :
    (q.registerThreadLocked tid o).2.device.toSessionCtl = q.device.toSessionCtl := by
  have hkernel : ∀ arg, (ioctlResult q.device o.refused
      (rdRegisterThreadLocked q.device arg o.kernel)).2.toSessionCtl = q.device.toSessionCtl := by
    intro arg
    rcases Profiler.ioctlResult_register q.device arg o with ⟨-, hsame⟩ | ⟨-, hr⟩
    · rw [hsame]
    · rw [hr]
      rcases rdRegisterThreadLocked_cases q.device arg o.kernel with he | ⟨-, he⟩ <;> rw [he]
  have hbind : ∀ q' : Profiler, q'.device = q.device →
      (q'.bindThread tid o).2.device.toSessionCtl = q.device.toSessionCtl := by
    intro q' hq'
    have hrelease : ∀ (q : Profiler) (cpu : ℕ), (q.releaseCpuLocked cpu).device = q.device := by
      intro q cpu
      unfold Profiler.releaseCpuLocked
      split_ifs <;> rfl
    unfold Profiler.bindThread
    cases halloc : q'.allocateCpuLocked o.statCpu with
    | none => exact congrArg Session.toSessionCtl hq'
    | some alloc =>
        obtain ⟨cpu, q''⟩ := alloc
        obtain ⟨-, rfl⟩ := Profiler.allocateCpuLocked_eq halloc
        dsimp only
        split_ifs
        · rw [hrelease]
          exact congrArg Session.toSessionCtl hq'
        cases o.mmap with
        | none =>
            dsimp only
            rw [hrelease]
            exact congrArg Session.toSessionCtl hq'
        | some region =>
            dsimp only
            rw [hq']
            split_ifs
            · rw [hrelease, Profiler.munmap_eq]
              exact hkernel _
            · exact hkernel _
  unfold Profiler.registerThreadLocked
  cases q.threads tid with
  | none => exact hbind q rfl
  | some b =>
      dsimp only
      split_ifs
      · rfl
      · exact hbind _ rfl

theorem ctl_unregisterThreadLocked (q : Profiler) (tid : ℤ)
    (refused : Option { ret : ℤ // ret < 0 }) :
    (q.unregisterThreadLocked tid refused).2.device.toSessionCtl = q.device.toSessionCtl := by
  have hkernel : (ioctlResult q.device refused
      (rdUnregisterThreadLocked q.device tid)).2.toSessionCtl = q.device.toSessionCtl := by
    cases refused with
    | some ret => rfl
    | none =>
        unfold ioctlResult rdUnregisterThreadLocked
        dsimp only
        cases rdFindActiveThreadByTid q.device tid <;> rfl
  have hrelease : ∀ (q : Profiler) (cpu : ℕ), (q.releaseCpuLocked cpu).device = q.device := by
    intro q cpu
    unfold Profiler.releaseCpuLocked
    split_ifs <;> rfl
  unfold Profiler.unregisterThreadLocked
  cases q.threads tid with
  | none => rfl
  | some b =>
      dsimp only
      split_ifs
      · rfl
      · exact hkernel
      · rw [Profiler.munmap_eq]
        change ((_ : Profiler).releaseCpuLocked b.cpu).device.toSessionCtl = _
        rw [hrelease]
        exact hkernel

theorem Coherent.withProfiler {p : TargetedRd} (h : p.Coherent) {q : Profiler}
    (hq : q.Consistent) (hctl : q.device.toSessionCtl = p.device.toSessionCtl) :
    (p.withProfiler q).Coherent :=
  ⟨hq, h.window.trans (congrArg SessionCtl.running hctl).symm,
    h.mode.trans (congrArg SessionCtl.callchainMode hctl).symm⟩

theorem Coherent.step {p : TargetedRd} (h : p.Coherent) (call : RunCall) :
    (p.step call).Coherent := by
  cases call with
  | rdStart mods => exact h.withController (h.follows.kernelStart mods)
  | rdStop => exact h.withController h.follows.kernelStop
  | register tid o =>
      exact h.withProfiler (h.consistent.registerThreadLocked tid o)
        (ctl_registerThreadLocked p.toProfiler tid o)
  | unregister tid refused =>
      exact h.withProfiler (h.consistent.unregisterThreadLocked tid refused)
        (ctl_unregisterThreadLocked p.toProfiler tid refused)
  | hit k ht =>
      refine ⟨?_, h.window, h.mode⟩
      exact h.consistent.congr rfl (fun _ _ => Iff.rfl) (fun _ ha => ha)
        (h.consistent.reachable.step (.hit k ht))
        (Session.activeTids_other h.consistent.reachable (e := .hit k ht) trivial)

theorem Coherent.run {p : TargetedRd} (h : p.Coherent) (calls : List RunCall) :
    (p.run calls).Coherent := by
  induction calls generalizing p with
  | nil => exact h
  | cons call calls ih => exact ih (h.step call)

theorem Prepared.coherent {p : TargetedRd} (h : p.Prepared) : p.Coherent :=
  ⟨h.fresh.consistent, h.windowOpen.trans h.running.symm, h.mode⟩

theorem Coherent.registerInitialThreads {p q : TargetedRd} (h : p.Coherent)
    {initial : List (ℤ × BindOutcome)} (hq : p.registerInitialThreads initial = .ok q) :
    q.Coherent := by
  induction initial generalizing p with
  | nil => exact Except.ok.inj hq ▸ h
  | cons t rest ih =>
      simp only [TargetedRd.registerInitialThreads] at hq
      have hreg := h.withProfiler (h.consistent.registerThreadLocked t.1 t.2)
        (ctl_registerThreadLocked p.toProfiler t.1 t.2)
      rcases hr : p.toProfiler.registerThreadLocked t.1 t.2 with ⟨e | b, q'⟩
      · rw [hr] at hq
        cases hq
      · rw [hr] at hq hreg
        exact ih hreg hq

theorem Coherent.construct {p q : TargetedRd} (h : p.Coherent)
    {initial : List (ℤ × BindOutcome)} (hq : p.construct initial = .ok q) : q.Coherent := by
  unfold TargetedRd.construct at hq
  cases hreg : p.registerInitialThreads initial with
  | error e =>
      rw [hreg] at hq
      cases hq
  | ok q' =>
      rw [hreg] at hq
      dsimp only at hq
      have hcoherent := h.registerInitialThreads hreg
      have hopen := hcoherent.withController hcoherent.follows.start.1
      rcases hw : q'.controller.startWindowLocked with ⟨c, _ | e⟩
      · rw [hw] at hq hopen
        rw [← Except.ok.inj hq]
        exact ⟨hopen.consistent, hopen.window, hopen.mode⟩
      · rw [hw] at hq
        cases hq

/-! ## The destructor -/

section Close

variable {q : Profiler} {refused : ℤ → Option { ret : ℤ // ret < 0 }} {tid : ℤ}

/-- What `unregister_thread_locked` leaves of an active binding. -/
theorem unregisterThreadLocked_ok {b : ThreadBinding} (hb : q.Holds tid b)
    (hok : (q.unregisterThreadLocked tid (refused tid)).1 = .ok ()) (tid' : ℤ)
    (b' : ThreadBinding) : (q.unregisterThreadLocked tid (refused tid)).2.Holds tid' b' ↔
      tid' ≠ tid ∧ q.Holds tid' b' := by
  revert hok
  unfold Profiler.unregisterThreadLocked
  rw [hb.1]
  dsimp only
  rw [if_neg (by simp [hb.2])]
  split_ifs
  · exact fun hok => by cases hok
  intro _
  rw [Profiler.munmap_eq]
  have hthreads : ∀ q : Profiler, (q.releaseCpuLocked b.cpu).threads = q.threads := by
    intro q
    unfold Profiler.releaseCpuLocked
    split_ifs <;> rfl
  unfold Profiler.Holds Profiler.setBinding
  dsimp only
  rw [hthreads]
  by_cases he : tid' = tid
  · simp only [he, Function.update_self, ne_eq, not_true_eq_false, false_and, iff_false]
    rintro ⟨hb', ha⟩
    rw [← Option.some.inj hb'] at ha
    cases ha
  · simp [he]

/-- The loop keeps both levels in agreement; if it completes no listed thread is left. -/
theorem closeThreads_spec (h : q.Consistent) (order : List ℤ) :
    (closeThreads refused q order).2.Consistent ∧
      (closeThreads refused q order).2.device.toSessionCtl = q.device.toSessionCtl ∧
      ((closeThreads refused q order).1 = .ok () → ∀ tid b,
        (closeThreads refused q order).2.Holds tid b → q.Holds tid b ∧ tid ∉ order) := by
  induction order generalizing q with
  | nil => exact ⟨h, rfl, fun _ tid b hb => ⟨hb, by simp⟩⟩
  | cons tid rest ih =>
      simp only [closeThreads]
      by_cases hactive : (q.threads tid).any ThreadBinding.active = true
      · rw [if_pos hactive]
        obtain ⟨b, hb, ha⟩ := (Option.any_eq_true _ _).mp hactive
        have hconsistent := h.unregisterThreadLocked tid (refused tid)
        have hctl := ctl_unregisterThreadLocked q tid (refused tid)
        have hholds := @unregisterThreadLocked_ok q refused tid b ⟨hb, ha⟩
        rcases hr : q.unregisterThreadLocked tid (refused tid) with ⟨e | ⟨⟩, q'⟩
        · rw [hr] at hconsistent hctl
          exact ⟨hconsistent, hctl, fun hok => by cases hok⟩
        · rw [hr] at hconsistent hctl hholds
          obtain ⟨h1, h2, h3⟩ := ih hconsistent
          refine ⟨h1, h2.trans hctl, fun hok tid' b' hb' => ?_⟩
          obtain ⟨hq', hnot⟩ := h3 hok tid' b' hb'
          obtain ⟨hne, hq⟩ := (hholds rfl tid' b').mp hq'
          exact ⟨hq, by simp [hne, hnot]⟩
      · rw [if_neg hactive]
        obtain ⟨h1, h2, h3⟩ := ih h
        refine ⟨h1, h2, fun hok tid' b' hb' => ?_⟩
        obtain ⟨hq, hnot⟩ := h3 hok tid' b' hb'
        have hne : tid' ≠ tid := by
          rintro rfl
          exact hactive (by rw [hq.1]; exact hq.2)
        exact ⟨hq, by simp [hne, hnot]⟩

/-- Nothing is refused: the loop completes. -/
theorem closeThreads_returns (h : q.Consistent) (hrefused : ∀ tid, refused tid = none)
    (order : List ℤ) : (closeThreads refused q order).1 = .ok () := by
  induction order generalizing q with
  | nil => rfl
  | cons tid rest ih =>
      simp only [closeThreads]
      split_ifs
      · have hconsistent := h.unregisterThreadLocked tid (refused tid)
        have hok : (q.unregisterThreadLocked tid (refused tid)).1 = .ok () := by
          unfold Profiler.unregisterThreadLocked
          cases hb : q.threads tid with
          | none => rfl
          | some b =>
              dsimp only
              split_ifs with hoff hret
              · rfl
              · have hzero := (h.rdUnregisterThreadLocked_eq_zero ⟨hb, by simpa using hoff⟩).1
                rw [hrefused tid] at hret
                simp only [ioctlResult, hzero] at hret
                omega
              · rfl
        rcases hr : q.unregisterThreadLocked tid (refused tid) with ⟨e | ⟨⟩, q'⟩
        · rw [hr] at hok
          cases hok
        · rw [hr] at hconsistent
          exact ih hconsistent
      · exact ih h

end Close

end TargetedRd

/-! ## The sums of a report -/

theorem sum_bucketRows_all {α : Type} {row : ℕ → ℕ → ℕ → α} {count : α → ℕ}
    (hcount : ∀ lo hi n, count (row lo hi n) = n) {buckets : List ℕ}
    (hlen : buckets.length = log2Buckets) :
    ((bucketRows row buckets).map count).sum = buckets.sum := by
  have hfirst : ∀ n ≤ log2Buckets, ((((List.range n).filterMap fun b =>
      if buckets[b]?.getD 0 = 0 then none
      else some (row (bucketLo b) (bucketHi b) (buckets[b]?.getD 0))).map count).sum) =
        (buckets.take n).sum := by
    intro n hn
    induction n with
    | zero => simp
    | succ n ih =>
        have hlt : n < buckets.length := by omega
        rw [List.range_succ, List.filterMap_append, List.map_append, List.sum_append,
          ih (by omega), List.take_succ_eq_append_getElem hlt, List.sum_append]
        simp only [List.filterMap_cons, List.filterMap_nil, List.getElem?_eq_getElem hlt,
          Option.getD_some]
        by_cases hzero : buckets[n] = 0 <;> simp [hzero, hcount]
  have hall := hfirst log2Buckets le_rfl
  rwa [List.take_of_length_le hlen.le] at hall

/-- A list cut into blocks of one size. -/
theorem sum_blocks (size : ℕ) {l : List ℕ} {n : ℕ} (hlen : l.length = n * size) :
    ((List.range n).map fun t =>
      ((List.range size).map fun b => l[t * size + b]?.getD 0).sum).sum = l.sum := by
  have hblock : ∀ t < n, ((List.range size).map fun b => l[t * size + b]?.getD 0) =
      (l.drop (t * size)).take size := by
    intro t ht
    have hfit : (t + 1) * size ≤ l.length := hlen ▸ Nat.mul_le_mul_right size ht
    rw [Nat.succ_mul] at hfit
    apply List.ext_getElem
    · simp only [List.length_map, List.length_range, List.length_take, List.length_drop]
      omega
    · intro b hb hb'
      have hlt : t * size + b < l.length := by
        simp only [List.length_map, List.length_range] at hb
        omega
      simp [List.getElem?_eq_getElem hlt]
  have hprefix : ∀ m ≤ n, ((List.range m).map fun t =>
      ((List.range size).map fun b => l[t * size + b]?.getD 0).sum).sum =
        (l.take (m * size)).sum := by
    intro m hm
    induction m with
    | zero => simp
    | succ m ih =>
        rw [List.range_succ, List.map_append, List.sum_append, ih (by omega), List.map_singleton,
          List.sum_singleton, hblock m (by omega), Nat.succ_mul, List.take_add, List.sum_append]
  have hall := hprefix n le_rfl
  rwa [List.take_of_length_le hlen.le] at hall

def histMass (rows : List HistRow) : ℕ := (rows.map HistRow.count).sum

/-- The histogram file of a context counts its hits. -/
theorem histMass_threadHistRows {s : Session} {th : Thread} (hs : Shaped s.toSessionCtl th)
    (hok : ResultsOk s.toSessionCtl th) : histMass (threadHistRows s th) = th.hits := by
  have hrows : ∀ l : List ℕ, ((l.flatMap fun t => bucketRows (HistRow.mk (targetPcOffset s t))
      ((List.range log2Buckets).map fun b => th.log2Hist[t * log2Buckets + b]?.getD 0)).map
        HistRow.count).sum = (l.map fun t => ((List.range log2Buckets).map fun b =>
          th.log2Hist[t * log2Buckets + b]?.getD 0).sum).sum := by
    intro l
    induction l with
    | nil => rfl
    | cons t l ih =>
        rw [List.flatMap_cons, List.map_append, List.sum_append, ih,
          sum_bucketRows_all (fun _ _ _ => rfl) (by simp), List.map_cons, List.sum_cons]
  unfold histMass threadHistRows
  rw [hrows, sum_blocks log2Buckets hs.tables.1, hok.hist_sum]

theorem sum_lines {s : Session} {f : ThreadStats → ℕ} {g : Thread → ℕ}
    (h : ∀ i th, f (threadStatsOf s i th) = g th) :
    ((s.threads.mapIdx (threadStatsOf s)).map f).sum = (s.threads.map g).sum := by
  refine congrArg List.sum (List.ext_getElem (by simp) fun i hi hi' => ?_)
  simp [h]

/-- A report that accounts for every seed and every hit of its session. -/
structure Report.Balanced (s : Session) (r : Report) : Prop where
  lines : r.lines = s.threads.mapIdx (threadStatsOf s)
  line : ∀ l ∈ r.lines, l.active = false ∧ l.candidateSamples = l.reservoirSeen ∧
    l.reservoirSeen = l.reservoirAccepted + l.reservoirRejected ∧
    l.reservoirAccepted = l.hits + l.evictions + l.dropped
  totals : r.totals = .of r.lines
  seeds : r.totals.seeds = r.totals.hits + r.totals.evictions + r.totals.dropped
  events : s.callchainMode = .dwarf →
    r.totals.dwarfEventUsed + r.totals.dwarfEventDropped = r.totals.hits
  hist_le : (r.files.hist.map fun f => histMass f.2).sum ≤ r.totals.hits
  hist_eq_iff : (r.files.hist.map fun f => histMass f.2).sum = r.totals.hits ↔ s.NoHitReplaced

theorem Report.Balanced.hits {s : Session} {r : Report} (h : r.Balanced s) :
    r.totals.hits = (s.threads.map Thread.hits).sum := by
  rw [h.totals, ReportTotals.of, h.lines]
  exact sum_lines fun _ _ => rfl

theorem Session.Reachable.meterBalanced {s : Session} (h : s.Reachable) {th : Thread}
    (hth : th ∈ s.threads) : th.meter.Balanced :=
  h.shaped_induction (I := fun _ th => th.meter.Balanced) (fun c arg _ => balanced_newThread c arg)
    (fun _ _ _ _ hc hs hi hstep => balanced_step hc hs hi hstep) hth

/-- A detached context has no seed in a slot any more. -/
theorem Session.Reachable.accepted_eq {s : Session} (h : s.Reachable) {th : Thread}
    (hth : th ∈ s.threads) (hoff : th.active = false) :
    th.reservoirAccepted = th.hits + th.evictions + th.dropped := by
  have hacc := (h.meterBalanced hth).accepted_eq
  have harmed : th.meter.armedCells = 0 := by
    rw [armedCells_meter, Thread.armedSlots, (h.shaped hth).slots_nil hoff]
    rfl
  rw [harmed] at hacc
  exact hacc

/-- The report of a session whose threads have all left. -/
theorem Session.Reachable.report_balanced {s : Session} (h : s.Reachable)
    (hoff : ∀ th ∈ s.threads, th.active = false) {mode : CallchainMode} {env : ReportEnv}
    {r : Report} (hr : writeReport s mode env = .ok r) : r.Balanced s := by
  have hcovers := writeReport_covers hr
  have hlines := hcovers.lines
  have hhist := hcovers.hist
  rw [List.take_length] at hlines hhist
  have hsum : ∀ {f : ThreadStats → ℕ} {g : Thread → ℕ}, (∀ i th, f (threadStatsOf s i th) = g th) →
      (r.lines.map f).sum = (s.threads.map g).sum := by
    intro f g hfg
    rw [hlines]
    exact sum_lines hfg
  have hhits : r.totals.hits = (s.threads.map Thread.hits).sum := by
    rw [hcovers.totals]
    exact hsum fun _ _ => rfl
  have hrows : ∀ th ∈ s.threads, histMass (threadHistRows s th) = th.hits := fun th hth =>
    histMass_threadHistRows (h.shaped hth) (h.resultsOk hth)
  have hweight := weight_threads s.threads (threadHistRows s) histMass
  have hmass : (s.threads.map fun th => histMass (threadHistRows s th)) =
      s.threads.map Thread.hits := List.map_congr_left hrows
  refine ⟨hlines, ?_, hcovers.totals, ?_, ?_, ?_, ?_⟩
  · intro l hl
    rw [hlines] at hl
    obtain ⟨i, hi, rfl⟩ := List.mem_mapIdx.mp hl
    have hmem := List.getElem_mem hi
    have hmeter := h.meterBalanced hmem
    exact ⟨hoff _ hmem, hmeter.candidate_eq, hmeter.seen_eq, h.accepted_eq hmem (hoff _ hmem)⟩
  · have hseeds : r.totals.seeds = (s.threads.map fun th => th.reservoirAccepted).sum := by
      rw [hcovers.totals]
      exact hsum fun _ _ => rfl
    have hevictions : r.totals.evictions = (s.threads.map fun th => th.evictions).sum := by
      rw [hcovers.totals]
      exact hsum fun _ _ => rfl
    have hdropped : r.totals.dropped = (s.threads.map fun th => th.dropped).sum := by
      rw [hcovers.totals]
      exact hsum fun _ _ => rfl
    rw [hseeds, hhits, hevictions, hdropped, ← List.sum_map_add, ← List.sum_map_add]
    refine congrArg List.sum (List.map_congr_left fun th hth => ?_)
    exact h.accepted_eq hth (hoff th hth)
  · intro hmode
    have hused : r.totals.dwarfEventUsed = (s.threads.map fun th => th.dwarfEventUsed).sum := by
      rw [hcovers.totals]
      exact hsum fun _ _ => rfl
    have hlost : r.totals.dwarfEventDropped =
        (s.threads.map fun th => th.dwarfEventDropped).sum := by
      rw [hcovers.totals]
      exact hsum fun _ _ => rfl
    rw [hused, hlost, hhits, ← List.sum_map_add]
    refine congrArg List.sum (List.map_congr_left fun th hth => ?_)
    exact (h.resultsOk hth).event_count hmode
  · rw [hhist, hhits, ← hmass]
    refine le_trans ?_ (weight_surviving_le histMass
      (s.threads.map fun th => (th.tid, threadHistRows s th)) |>.trans_eq ?_)
    · exact (weight_putAll histMass [] _).le.trans (by simp [weight])
    · unfold weight
      rw [List.map_map]
      rfl
  · rw [hhist, hhits, ← hmass]
    refine hweight.trans ?_
    unfold Session.NoHitReplaced
    constructor
    · intro hpair
      refine hpair.imp_of_mem fun {th th'} hth _ hzero he => ?_
      rw [← hrows th hth]
      exact hzero he
    · intro hpair
      refine hpair.imp_of_mem fun {th th'} hth _ hzero he => ?_
      rw [hrows th hth]
      exact hzero he

/-! ## The whole run -/

structure TargetedRd.Closed (p : TargetedRd) : Prop where
  holds : ∀ tid b, ¬ p.Holds tid b
  cpuOwner : ∀ owner ∈ p.cpuOwner, owner = 0
  mapped : p.mapped = []
  threads : ∀ th ∈ p.device.threads, th.active = false
  window : p.windowOpen = false ∧ p.device.running = false

namespace TargetedRd

variable {p : TargetedRd} {order : List ℤ} {refused : ℤ → Option { ret : ℤ // ret < 0 }}
  {env : ReportEnv}

theorem Coherent.closed (h : p.Coherent) (hwindow : p.windowOpen = false)
    (hnone : ∀ tid b, ¬ p.Holds tid b) : p.Closed := by
  refine ⟨hnone, ?_, ?_, ?_, hwindow, h.window.symm.trans hwindow⟩
  · intro owner howner
    obtain ⟨c, hc⟩ := List.mem_iff_getElem?.mp howner
    rcases h.consistent.owner c owner hc with h0 | ⟨-, tid, b, hb, -⟩
    · exact h0
    · exact absurd hb (hnone tid b)
  · rw [List.eq_nil_iff_forall_not_mem]
    intro a ha
    obtain ⟨tid, b, hb, -⟩ := h.consistent.mapped a ha
    exact hnone tid b hb
  · intro th hth
    by_contra hon
    have hmem : th.tid ∈ p.device.activeTids :=
      Session.mem_activeTids.mpr ⟨th, hth, by simpa using hon, rfl⟩
    obtain ⟨b, hb⟩ := (h.consistent.tids th.tid).mpr hmem
    exact hnone th.tid b hb

/-- What the destructor did, if it wrote its report. -/
theorem Coherent.destroy_ok (h : p.Coherent)
    (horder : ∀ tid, (p.threads tid).isSome = true → tid ∈ order) {r : Report} {q : TargetedRd}
    (hr : p.destroy order refused env = (.ok r, q)) : q.Closed ∧ r.Balanced q.device := by
  have hstop : Follows p.device (if p.windowOpen then p.controller.stopWindowLocked
      else ⟨p.controller, none⟩).controller ∧ (if p.windowOpen then p.controller.stopWindowLocked
      else ⟨p.controller, none⟩).controller.windowOpen = false := by
    cases hw : p.windowOpen with
    | true => exact ⟨h.follows.stop.1, h.follows.stop.2.2⟩
    | false => exact ⟨h.follows, hw⟩
  unfold TargetedRd.destroy at hr
  dsimp only at hr
  generalize (if p.windowOpen then p.controller.stopWindowLocked
    else ⟨p.controller, none⟩) = stopped at hr hstop
  have hcoherent := h.withController hstop.1
  cases hthrown : stopped.thrown with
  | some e =>
      rw [hthrown] at hr
      cases hr
  | none =>
      rw [hthrown] at hr
      dsimp only at hr
      obtain ⟨hconsistent, hctl, hclosed⟩ := @closeThreads_spec
        (p.withController stopped.controller).toProfiler refused hcoherent.consistent order
      have hfinal := hcoherent.withProfiler hconsistent hctl
      rcases hc : closeThreads refused (p.withController stopped.controller).toProfiler order with
        ⟨e | ⟨⟩, q'⟩
      · rw [hc] at hr
        cases hr
      · rw [hc] at hr hclosed hfinal
        dsimp only at hr
        obtain ⟨hreport, rfl⟩ := Prod.mk.inj hr
        have hq := hfinal.closed hstop.2 fun tid b hb => by
          obtain ⟨hheld, hnot⟩ := hclosed rfl tid b hb
          refine hnot (horder tid ?_)
          have hthreads : p.threads tid = some b := hheld.1
          rw [hthreads]
          rfl
        exact ⟨hq, hfinal.consistent.reachable.report_balanced hq.threads
          (mapError_eq_ok.mp hreport)⟩

/-- When no call is refused the destructor writes its report. -/
theorem Coherent.destroy_returns (h : p.Coherent) (hrefused : ∀ tid, refused tid = none)
    (henv : env.AllOk) : ∃ r q, p.destroy order refused env = (.ok r, q) := by
  have hstop : Follows p.device (if p.windowOpen then p.controller.stopWindowLocked
      else ⟨p.controller, none⟩).controller ∧ (if p.windowOpen then p.controller.stopWindowLocked
      else ⟨p.controller, none⟩).thrown = none := by
    split_ifs
    · exact ⟨h.follows.stop.1, h.follows.stop.2.1⟩
    · exact ⟨h.follows, rfl⟩
  unfold TargetedRd.destroy
  dsimp only
  generalize (if p.windowOpen then p.controller.stopWindowLocked
    else ⟨p.controller, none⟩) = stopped at hstop ⊢
  have hcoherent := h.withController hstop.1
  rw [hstop.2]
  dsimp only
  have hreturns := @closeThreads_returns (p.withController stopped.controller).toProfiler refused
    hcoherent.consistent hrefused order
  obtain ⟨hconsistent, -, -⟩ := @closeThreads_spec
    (p.withController stopped.controller).toProfiler refused hcoherent.consistent order
  rcases hc : closeThreads refused (p.withController stopped.controller).toProfiler order with
    ⟨e | ⟨⟩, q'⟩
  · rw [hc] at hreturns
    cases hreturns
  · rw [hc] at hconsistent
    obtain ⟨r, hr⟩ := @writeReport_returns q'.device p.callchainMode env hconsistent.reachable henv
    exact ⟨r, _, congrArg (·, _) (mapError_eq_ok.mpr hr)⟩

end TargetedRd

/-- After every run of calls, failed ones among them, both levels agree on the window and on the
threads. The destructor completes unless a call of it is refused, and when it completes it has freed
every CPU and scratch region, left no thread active and written a report in which every accepted
seed is a hit, an eviction or a drop. -/
theorem run_closes (p : TargetedRd) (h : p.Prepared) (initial : List (ℤ × BindOutcome))
    (q : TargetedRd) (hq : p.construct initial = .ok q) (calls : List RunCall) (order : List ℤ)
    (horder : ∀ tid, ((q.run calls).threads tid).isSome = true → tid ∈ order)
    (refused : ℤ → Option { ret : ℤ // ret < 0 }) (env : ReportEnv) :
    (q.run calls).windowOpen = (q.run calls).device.running ∧
    (∀ tid, (∃ b, (q.run calls).Holds tid b) ↔ tid ∈ (q.run calls).device.activeTids) ∧
    ((∀ tid, refused tid = none) → env.AllOk →
      ∃ r q', (q.run calls).destroy order refused env = (.ok r, q')) ∧
    ∀ r q', (q.run calls).destroy order refused env = (.ok r, q') →
      q'.Closed ∧ r.Balanced q'.device := by
  have hcoherent := (h.coherent.construct hq).run calls
  exact ⟨hcoherent.window, hcoherent.consistent.tids,
    fun hrefused henv => hcoherent.destroy_returns hrefused henv,
    fun r q' hr => hcoherent.destroy_ok horder hr⟩

def smallTargetedRd : TargetedRd where
  toProfiler := smallProfiler
  windowOpen := false
  autoFallbackActive := false
  explicitWindowSeen := false
  autoWindowDiscardedOnFirstExplicit := false
  callchainMode := .off

theorem smallTargetedRd_prepared : smallTargetedRd.Prepared :=
  ⟨⟨rfl, fun _ => rfl, rfl, ⟨1, (smallSetup 0).take 2, rfl⟩, rfl⟩, rfl, rfl, rfl⟩

/-- The profiler of thread 7 after the first explicit start. -/
def startedRd : TargetedRd :=
  ((smallTargetedRd.construct [(7, smallOutcome)]).toOption.getD smallTargetedRd).run
    [.rdStart fun _ _ => 0]

def startedThread : Thread := startedRd.device.threads[0]?.getD (allocThread ⟨7, 0, 0x1000, 8⟩)

def reusedThread : Thread :=
  reuseHits.foldl (fun th ht => th.hit startedRd.device.toSessionCtl ht) startedThread

def reuseCalls : List RunCall :=
  .rdStart (fun _ _ => 0) :: (reuseHits.map (RunCall.hit 0) ++ [.rdStop])

theorem TargetedRd.run_hits (p : TargetedRd) (c : SessionCtl) (hits : List Hit) (th : Thread) :
    ({ p with device := ⟨c, [th]⟩ } : TargetedRd).run (hits.map (RunCall.hit 0)) =
      { p with device := ⟨c, [hits.foldl (fun th ht => th.hit c ht) th]⟩ } := by
  induction hits generalizing th with
  | nil => rfl
  | cons ht hits ih => exact ih (th.hit c ht)

theorem TargetedRd.run_cons_append (p : TargetedRd) (call : RunCall) (calls calls' : List RunCall) :
    p.run (call :: (calls ++ calls')) = ((p.run [call]).run calls).run calls' := List.foldl_append

theorem construct_small : ∃ q, smallTargetedRd.construct [(7, smallOutcome)] = .ok q ∧
    q.run reuseCalls = ({ startedRd with
      device := ⟨startedRd.device.toSessionCtl, [reusedThread]⟩ } : TargetedRd).run [.rdStop] := by
  obtain ⟨q, hq, hstart⟩ : ∃ q, smallTargetedRd.construct [(7, smallOutcome)] = .ok q ∧
      q.run [.rdStart fun _ _ => 0] = startedRd := ⟨_, rfl, rfl⟩
  have hdevice : startedRd = { startedRd with
      device := ⟨startedRd.device.toSessionCtl, [startedThread]⟩ } := rfl
  have hhits := startedRd.run_hits startedRd.device.toSessionCtl reuseHits startedThread
  rw [← hdevice] at hhits
  refine ⟨q, hq, ?_⟩
  unfold reusedThread
  rw [← hhits, ← hstart]
  exact q.run_cons_append ..

theorem reusedThread_spec : reusedThread.tid = 7 ∧ reusedThread.active = true ∧
    reusedThread.liveDetached = false ∧ reusedThread.hits = 1 := by
  have hproj : ∀ th : Thread, th.tid = th.frame.tid ∧ th.active = th.frame.active ∧
      th.liveDetached = th.frame.liveDetached ∧ th.hits = th.meter.hits :=
    fun _ => ⟨rfl, rfl, rfl, rfl⟩
  obtain ⟨htid, hactive, hlive, hhits⟩ := hproj reusedThread
  rw [htid, hactive, hlive, hhits, reusedThread, frame_hits, meter_hits]
  exact ⟨rfl, rfl, rfl, by decide⟩

/-- Closing keeps the hits of the thread. -/
theorem hits_destroy (th : Thread) (htid : th.tid = 7) (hactive : th.active = true)
    (hlive : th.liveDetached = false) :
    ((({ startedRd with device := ⟨startedRd.device.toSessionCtl, [th]⟩ } : TargetedRd).run
      [.rdStop]).destroy [7] (fun _ => none) smallReportEnv).2.device.threads.map Thread.hits =
        [th.hits] := by
  cases th
  cases htid
  cases hactive
  cases hlive
  rfl

/-- The report of a run with a reuse shows its one hit. -/
theorem run_closes_small : ∃ q, smallTargetedRd.construct [(7, smallOutcome)] = .ok q ∧
    ∃ r q', (q.run reuseCalls).destroy [7] (fun _ => none) smallReportEnv = (.ok r, q') ∧
      q'.Closed ∧ r.Balanced q'.device ∧ r.totals.hits = 1 := by
  obtain ⟨q, hq, hrun⟩ := construct_small
  have h := run_closes smallTargetedRd smallTargetedRd_prepared [(7, smallOutcome)] q hq
    reuseCalls [7] (fun tid htid => ?_) (fun _ => none) smallReportEnv
  · obtain ⟨r, q', hr⟩ := h.2.2.1 (fun _ => rfl) smallReportEnv_allOk
    obtain ⟨hclosed, hbalanced⟩ := h.2.2.2 r q' hr
    obtain ⟨htid, hactive, hlive, hhits⟩ := reusedThread_spec
    have hdevice := hits_destroy reusedThread htid hactive hlive
    rw [← hrun, hr, hhits] at hdevice
    refine ⟨q, hq, r, q', hr, hclosed, hbalanced, ?_⟩
    rw [hbalanced.hits, hdevice]
    rfl
  · by_contra hne
    have hother : tid ≠ 7 := List.mem_singleton.not.mp hne
    rw [hrun] at htid
    have hnone := htid.symm.trans (congrArg Option.isSome (Function.update_of_ne hother _ _))
    cases hnone

end RdSpeTool
