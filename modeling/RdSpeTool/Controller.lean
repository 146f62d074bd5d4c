import RdSpeTool.Reset

/-!
# The window controller of the targeted profiler

`TargetedRdProfiler` shadows the running flag of its kernel session with three booleans. It opens
an automatic window at construction; the first `rd_start` closes it, resets the session and opens
the explicit window, after which `rd_start` and `rd_stop` only open and close it. Between calls
the kernel sees hits and thread registrations.
-/

namespace RdSpeTool

open ProbeTable

/-- A thrown message and the error number whose text is appended to it. -/
structure RdException where
  what : String
  errno : Option ℤ
  deriving DecidableEq

/-- An ioctl sent to the device, with the running flag it met. -/
structure Issue where
  cmd : Ioctl
  running : Bool

def Issue.isReset (i : Issue) : Bool :=
  match i.cmd with
  | .resetSession _ => true
  | _ => false

structure Controller where
  windowOpen : Bool
  autoFallbackActive : Bool
  explicitWindowSeen : Bool
  autoWindowDiscardedOnFirstExplicit : Bool
  kernel : Session
  issued : List Issue

/-- What a call leaves behind: the controller and a thrown exception, if any. -/
structure Outcome where
  controller : Controller
  thrown : Option RdException

def Outcome.andThen (r : Outcome) (f : Controller → Outcome) : Outcome :=
  match r.thrown with
  | some _ => r
  | none => f r.controller

namespace Controller

def ioctl (p : Controller) (cmd : Ioctl) (failed : String) : Outcome :=
  let r := rdWpctlIoctl p.kernel cmd
  ⟨{ p with kernel := r.2, issued := p.issued ++ [⟨cmd, p.kernel.running⟩] },
    if r.1 < 0 then some ⟨failed, some (-r.1)⟩ else none⟩

def startWindowLocked (p : Controller) : Outcome :=
  if p.windowOpen then ⟨p, none⟩
  else
    (p.ioctl .startWindow "RDKIOC_START_WINDOW failed: ").andThen fun p =>
      ⟨{ p with windowOpen := true }, none⟩

def stopWindowLocked (p : Controller) : Outcome :=
  if p.windowOpen = false then ⟨p, none⟩
  else
    (p.ioctl .stopWindow "RDKIOC_STOP_WINDOW failed: ").andThen fun p =>
      ⟨{ p with windowOpen := false }, none⟩

def resetSessionLocked (p : Controller) (mods : ℕ → ℕ → ℤ) : Outcome :=
  if p.windowOpen then ⟨p, some ⟨"RDKIOC_RESET_SESSION requires closed window", none⟩⟩
  else p.ioctl (.resetSession mods) "RDKIOC_RESET_SESSION failed: "

def kernelStart (p : Controller) (mods : ℕ → ℕ → ℤ) : Outcome :=
  if p.autoFallbackActive ∧ p.explicitWindowSeen = false then
    p.stopWindowLocked.andThen fun p =>
      (p.resetSessionLocked mods).andThen fun p =>
        p.startWindowLocked.andThen fun p =>
          ⟨{ p with
              autoFallbackActive := false
              explicitWindowSeen := true
              autoWindowDiscardedOnFirstExplicit := true }, none⟩
  else
    let p := { p with explicitWindowSeen := true, autoFallbackActive := false }
    if p.windowOpen then ⟨p, none⟩ else p.startWindowLocked

def kernelStop (p : Controller) : Outcome :=
  if p.windowOpen = false then ⟨p, none⟩
  else if p.autoFallbackActive ∧ p.explicitWindowSeen = false then ⟨p, none⟩
  else p.stopWindowLocked

/-- The end of the constructor: `s` is the session after configuration and registration. -/
def construct (s : Session) : Outcome :=
  (startWindowLocked ⟨false, false, false, false, s, []⟩).andThen fun p =>
    ⟨{ p with autoFallbackActive := true }, none⟩

end Controller

/-- What happens after construction. `mods` are the moves a reset makes, if one is issued. -/
inductive RunEvent
  | rdStart (mods : ℕ → ℕ → ℤ)
  | rdStop
  | hit (k : ℕ) (h : Hit)
  | registerThread (arg : ThreadRegister) (env : RegisterEnv)
  | unregisterThread (tid : ℤ)

namespace RunEvent

def isStart : RunEvent → Bool
  | rdStart _ => true
  | _ => false

def isCall : RunEvent → Bool
  | rdStart _ => true
  | rdStop => true
  | _ => false

def isHit : RunEvent → Bool
  | hit _ _ => true
  | _ => false

def Succeeds : RunEvent → Prop
  | rdStart mods => ∀ k i, mods k i = 0
  | _ => True

end RunEvent

namespace Controller

def step (p : Controller) : RunEvent → Outcome
  | .rdStart mods => p.kernelStart mods
  | .rdStop => p.kernelStop
  | .hit k h => ⟨{ p with kernel := p.kernel.step (.hit k h) }, none⟩
  | .registerThread arg env =>
      ⟨{ p with kernel := p.kernel.step (.ioctl (.registerThread arg env)) }, none⟩
  | .unregisterThread tid =>
      ⟨{ p with kernel := p.kernel.step (.ioctl (.unregisterThread tid)) }, none⟩

def run (p : Controller) : List RunEvent → Controller × List RdException
  | [] => (p, [])
  | e :: es =>
      let r := p.step e
      let q := run r.controller es
      (q.1, r.thrown.toList ++ q.2)

theorem run_append (p : Controller) (es fs : List RunEvent) :
    p.run (es ++ fs) = (((p.run es).1.run fs).1, (p.run es).2 ++ ((p.run es).1.run fs).2) := by
  induction es generalizing p with
  | nil => rfl
  | cons e es ih => simp only [List.cons_append, run, ih, List.append_assoc]

end Controller

/-! ## The two phases -/

/-- The automatic window is open and no `rd_start` was seen. -/
structure AutoPhase (p : Controller) : Prop where
  reachable : p.kernel.Reachable
  windowOpen : p.windowOpen = true
  running : p.kernel.running = true
  autoFallbackActive : p.autoFallbackActive = true
  explicitWindowSeen : p.explicitWindowSeen = false

/-- Explicit windows: the flag follows the kernel. -/
structure ExplicitPhase (p : Controller) : Prop where
  reachable : p.kernel.Reachable
  windowOpen : p.windowOpen = p.kernel.running
  autoFallbackActive : p.autoFallbackActive = false
  explicitWindowSeen : p.explicitWindowSeen = true

theorem running_registerThread (s : Session) (arg : ThreadRegister) (env : RegisterEnv) :
    (s.step (.ioctl (.registerThread arg env))).running = s.running := by
  change (rdRegisterThreadLocked s arg env).2.running = s.running
  rcases rdRegisterThreadLocked_cases s arg env with he | ⟨-, he⟩
  · rw [he]
  · rw [he]

theorem running_unregisterThread (s : Session) (tid : ℤ) :
    (s.step (.ioctl (.unregisterThread tid))).running = s.running := by
  change (rdUnregisterThreadLocked s tid).2.running = s.running
  unfold rdUnregisterThreadLocked
  cases rdFindActiveThreadByTid s tid <;> rfl

/-- The session after a reset in which every move succeeds. -/
def Session.cleared (s : Session) : Session :=
  { s with threads := s.threads.map fun th => th.frame.fresh }

theorem resetThreads_eq {c : SessionCtl} (hr : c.running = false) {mods : ℕ → ℕ → ℤ}
    (hmods : ∀ k i, mods k i = 0) (k : ℕ) {l : List Thread} (hl : ∀ th ∈ l, Shaped c th) :
    resetThreads c mods k l = (0, l.map fun th => th.frame.fresh) := by
  have hpark : ∀ (n : ℕ) (th : Thread) (m : ℕ → ℤ), (∀ i, m i = 0) → n ≤ c.wpCapacity →
      th.slots.length = c.wpCapacity → (parkSlots c m n th).2 = 0 := by
    intro n th m hm hn hlen
    induction n with
    | zero => rfl
    | succ n ih =>
        have hframe := congrArg (fun f : Frame => f.slots.length) (frame_parkSlots c m n th)
        simp only [List.length_map] at hframe
        simp only [parkSlots, ih (by omega), if_true]
        unfold rdModifySlot
        rw [if_neg (by omega), if_pos (hm n)]
  induction l generalizing k with
  | nil => rfl
  | cons th rest ih =>
      have hth := hl th List.mem_cons_self
      have hcode : (rdResetThreadLocked c th (mods k)).1 = 0 := by
        unfold rdResetThreadLocked
        cases ha : th.active with
        | true => exact hpark _ th (mods k) (hmods k) (Nat.le_refl _) (hth.slots_length ha)
        | false => rfl
      have hrest := ih (k + 1) fun t ht => hl t (List.mem_cons_of_mem th ht)
      simp only [resetThreads, hrest, hcode, rdResetThreadLocked_eq hth hr (hmods k)]
      rfl

theorem rdResetSessionLocked_eq {s : Session} (h : s.Reachable) (hr : s.running = false)
    {mods : ℕ → ℕ → ℤ} (hmods : ∀ k i, mods k i = 0) :
    rdResetSessionLocked s mods = (0, s.cleared) := by
  have hall := resetThreads_eq (c := s.toSessionCtl) hr hmods 0 (l := s.threads)
    fun th hth => h.shaped hth
  unfold rdResetSessionLocked
  rw [if_neg (by simp [hr]), hall]
  rfl

namespace Controller

variable {p : Controller}

theorem stopWindowLocked_of_open (h : p.windowOpen = true) : p.stopWindowLocked =
    ⟨{ p with
        windowOpen := false
        kernel := p.kernel.setWindow false
        issued := p.issued ++ [⟨.stopWindow, p.kernel.running⟩] }, none⟩ := by
  unfold stopWindowLocked
  rw [if_neg (by simp [h])]
  rfl

theorem startWindowLocked_of_closed (h : p.windowOpen = false) : p.startWindowLocked =
    ⟨{ p with
        windowOpen := true
        kernel := p.kernel.setWindow true
        issued := p.issued ++ [⟨.startWindow, p.kernel.running⟩] }, none⟩ := by
  unfold startWindowLocked
  rw [if_neg (by simp [h])]
  rfl

theorem resetSessionLocked_of_closed (h : p.windowOpen = false) (hreach : p.kernel.Reachable)
    (hr : p.kernel.running = false) {mods : ℕ → ℕ → ℤ} (hmods : ∀ k i, mods k i = 0) :
    p.resetSessionLocked mods =
      ⟨{ p with
          kernel := p.kernel.cleared
          issued := p.issued ++ [⟨.resetSession mods, false⟩] }, none⟩ := by
  have hreset : rdWpctlIoctl p.kernel (.resetSession mods) = (0, p.kernel.cleared) :=
    rdResetSessionLocked_eq hreach hr hmods
  unfold resetSessionLocked ioctl
  rw [if_neg (by simp [h]), hreset, hr]
  rfl

end Controller

namespace AutoPhase

variable {p : Controller}

theorem construct {s : Session} (h : s.Reachable) (hr : s.running = false) :
    AutoPhase (Controller.construct s).controller ∧ (Controller.construct s).thrown = none ∧
      (Controller.construct s).controller.issued = [⟨.startWindow, false⟩] := by
  have hc : Controller.construct s = ⟨⟨true, true, false, false, s.setWindow true,
      [⟨.startWindow, s.running⟩]⟩, none⟩ := rfl
  rw [hc, hr]
  exact ⟨⟨h.step (.ioctl .startWindow), rfl, rfl, rfl, rfl⟩, rfl, rfl⟩

theorem stop (h : AutoPhase p) : p.kernelStop = ⟨p, none⟩ := by
  unfold Controller.kernelStop
  rw [if_neg (by simp [h.windowOpen]), if_pos ⟨h.autoFallbackActive, h.explicitWindowSeen⟩]

theorem start (h : AutoPhase p) {mods : ℕ → ℕ → ℤ} (hmods : ∀ k i, mods k i = 0) :
    p.kernelStart mods =
      ⟨⟨true, false, true, true, ((p.kernel.setWindow false).cleared).setWindow true,
        p.issued ++ [⟨.stopWindow, true⟩, ⟨.resetSession mods, false⟩, ⟨.startWindow, false⟩]⟩,
        none⟩ := by
  unfold Controller.kernelStart
  rw [if_pos ⟨h.autoFallbackActive, h.explicitWindowSeen⟩,
    Controller.stopWindowLocked_of_open h.windowOpen]
  simp only [Outcome.andThen]
  rw [Controller.resetSessionLocked_of_closed rfl (h.reachable.step (.ioctl .stopWindow)) rfl hmods]
  simp only
  rw [Controller.startWindowLocked_of_closed rfl]
  simp only [h.running, List.append_assoc]
  rfl

/-- Hits and registrations leave the controller in its phase. -/
theorem step (h : AutoPhase p) {e : RunEvent} (he : e.isStart = false) :
    AutoPhase (p.step e).controller ∧ (p.step e).thrown = none ∧
      (p.step e).controller.issued = p.issued := by
  cases e with
  | rdStart mods => cases he
  | rdStop =>
      change AutoPhase p.kernelStop.controller ∧ p.kernelStop.thrown = none ∧
        p.kernelStop.controller.issued = p.issued
      rw [h.stop]
      exact ⟨h, rfl, rfl⟩
  | hit k ht =>
      exact ⟨⟨h.reachable.step (.hit k ht), h.windowOpen, h.running, h.autoFallbackActive,
        h.explicitWindowSeen⟩, rfl, rfl⟩
  | registerThread arg env =>
      refine ⟨⟨h.reachable.step (.ioctl (.registerThread arg env)), h.windowOpen, ?_,
        h.autoFallbackActive, h.explicitWindowSeen⟩, rfl, rfl⟩
      exact (running_registerThread p.kernel arg env).trans h.running
  | unregisterThread tid =>
      refine ⟨⟨h.reachable.step (.ioctl (.unregisterThread tid)), h.windowOpen, ?_,
        h.autoFallbackActive, h.explicitWindowSeen⟩, rfl, rfl⟩
      exact (running_unregisterThread p.kernel tid).trans h.running

theorem run (h : AutoPhase p) {es : List RunEvent} (hes : ∀ e ∈ es, e.isStart = false) :
    AutoPhase (p.run es).1 ∧ (p.run es).2 = [] ∧ (p.run es).1.issued = p.issued := by
  induction es generalizing p with
  | nil => exact ⟨h, rfl, rfl⟩
  | cons e es ih =>
      obtain ⟨hstep, hthrown, hissued⟩ := h.step (hes e List.mem_cons_self)
      obtain ⟨h1, h2, h3⟩ := ih hstep fun e' he' => hes e' (List.mem_cons_of_mem e he')
      refine ⟨h1, ?_, h3.trans hissued⟩
      simp only [Controller.run, hthrown, h2]
      rfl

/-- The first `rd_start` ends the automatic phase with the window open. -/
theorem explicit (h : AutoPhase p) {mods : ℕ → ℕ → ℤ} (hmods : ∀ k i, mods k i = 0) :
    ExplicitPhase (p.kernelStart mods).controller := by
  have hcleared : (p.kernel.setWindow false).cleared =
      (p.kernel.setWindow false).step (.ioctl (.resetSession mods)) :=
    (congrArg Prod.snd (rdResetSessionLocked_eq (h.reachable.step (.ioctl .stopWindow)) rfl
      hmods)).symm
  rw [h.start hmods]
  refine ⟨?_, rfl, rfl, rfl⟩
  rw [hcleared]
  exact ((h.reachable.step (.ioctl .stopWindow)).step _).step (.ioctl .startWindow)

end AutoPhase

def callFlag (b : Bool) (es : List RunEvent) : Bool :=
  ((es.filter RunEvent.isCall).getLast?.map RunEvent.isStart).getD b

theorem callFlag_cons_call (b : Bool) {e : RunEvent} (he : e.isCall = true) (es : List RunEvent) :
    callFlag b (e :: es) = callFlag e.isStart es := by
  unfold callFlag
  rw [List.filter_cons_of_pos he, List.getLast?_cons]
  cases (es.filter RunEvent.isCall).getLast? <;> rfl

theorem callFlag_cons_other (b : Bool) {e : RunEvent} (he : e.isCall = false)
    (es : List RunEvent) : callFlag b (e :: es) = callFlag b es := by
  unfold callFlag
  rw [List.filter_cons_of_neg (by simp [he])]

namespace ExplicitPhase

variable {p : Controller}

/-- A later call opens or closes the window and discards nothing. -/
theorem step (h : ExplicitPhase p) (e : RunEvent) :
    ExplicitPhase (p.step e).controller ∧ (p.step e).thrown = none ∧
      (p.step e).controller.issued.filter Issue.isReset = p.issued.filter Issue.isReset ∧
      (p.step e).controller.kernel.running =
        if e.isCall then e.isStart else p.kernel.running := by
  have hauto : ¬ (p.autoFallbackActive = true ∧ p.explicitWindowSeen = false) := by
    simp [h.autoFallbackActive]
  cases e with
  | rdStart mods =>
      change ExplicitPhase (p.kernelStart mods).controller ∧ (p.kernelStart mods).thrown = none ∧
        (p.kernelStart mods).controller.issued.filter Issue.isReset =
          p.issued.filter Issue.isReset ∧ (p.kernelStart mods).controller.kernel.running = true
      unfold Controller.kernelStart
      rw [if_neg hauto]
      dsimp only
      cases hw : p.windowOpen with
      | true =>
          rw [if_pos rfl]
          exact ⟨⟨h.reachable, hw.symm.trans h.windowOpen, rfl, rfl⟩, rfl, rfl,
            h.windowOpen.symm.trans hw⟩
      | false =>
          rw [if_neg Bool.false_ne_true, Controller.startWindowLocked_of_closed rfl]
          refine ⟨⟨h.reachable.step (.ioctl .startWindow), rfl, rfl, rfl⟩, rfl, ?_, rfl⟩
          rw [List.filter_append]
          exact List.append_nil _
  | rdStop =>
      change ExplicitPhase p.kernelStop.controller ∧ p.kernelStop.thrown = none ∧
        p.kernelStop.controller.issued.filter Issue.isReset =
          p.issued.filter Issue.isReset ∧ p.kernelStop.controller.kernel.running = false
      unfold Controller.kernelStop
      cases hw : p.windowOpen with
      | false =>
          rw [if_pos rfl]
          exact ⟨h, rfl, rfl, h.windowOpen.symm.trans hw⟩
      | true =>
          rw [if_neg (by simp), if_neg hauto, Controller.stopWindowLocked_of_open hw]
          refine ⟨⟨h.reachable.step (.ioctl .stopWindow), rfl, h.autoFallbackActive,
            h.explicitWindowSeen⟩, rfl, ?_, rfl⟩
          rw [List.filter_append]
          exact List.append_nil _
  | hit k ht =>
      exact ⟨⟨h.reachable.step (.hit k ht), h.windowOpen, h.autoFallbackActive,
        h.explicitWindowSeen⟩, rfl, rfl, rfl⟩
  | registerThread arg env =>
      have hrun := running_registerThread p.kernel arg env
      exact ⟨⟨h.reachable.step (.ioctl (.registerThread arg env)), h.windowOpen.trans hrun.symm,
        h.autoFallbackActive, h.explicitWindowSeen⟩, rfl, rfl, hrun⟩
  | unregisterThread tid =>
      have hrun := running_unregisterThread p.kernel tid
      exact ⟨⟨h.reachable.step (.ioctl (.unregisterThread tid)), h.windowOpen.trans hrun.symm,
        h.autoFallbackActive, h.explicitWindowSeen⟩, rfl, rfl, hrun⟩

theorem run (h : ExplicitPhase p) (es : List RunEvent) :
    ExplicitPhase (p.run es).1 ∧ (p.run es).2 = [] ∧
      (p.run es).1.issued.filter Issue.isReset = p.issued.filter Issue.isReset ∧
      (p.run es).1.kernel.running = callFlag p.kernel.running es := by
  induction es generalizing p with
  | nil => exact ⟨h, rfl, rfl, rfl⟩
  | cons e es ih =>
      obtain ⟨hstep, hthrown, hissued, hrun⟩ := h.step e
      obtain ⟨h1, h2, h3, h4⟩ := ih hstep
      refine ⟨h1, ?_, h3.trans hissued, ?_⟩
      · simp only [Controller.run, hthrown, h2]
        rfl
      · refine h4.trans ?_
        rw [hrun]
        cases hc : e.isCall with
        | true => exact (callFlag_cons_call _ hc es).symm
        | false => exact (callFlag_cons_other _ hc es).symm

/-- A later `rd_start` leaves every thread as it was, up to enabled events. -/
theorem start_threads (h : ExplicitPhase p) (mods : ℕ → ℕ → ℤ) :
    (p.kernelStart mods).controller.kernel.threads.map (Thread.setEvents false) =
      p.kernel.threads.map (Thread.setEvents false) := by
  have hauto : ¬ (p.autoFallbackActive = true ∧ p.explicitWindowSeen = false) := by
    simp [h.autoFallbackActive]
  unfold Controller.kernelStart
  rw [if_neg hauto]
  dsimp only
  cases hw : p.windowOpen with
  | true => rfl
  | false =>
      rw [if_neg Bool.false_ne_true, Controller.startWindowLocked_of_closed rfl]
      change (p.kernel.threads.map fun th => if th.active then th.setEvents true else th).map _ = _
      rw [List.map_map]
      refine List.map_congr_left fun th _ => ?_
      simp only [Function.comp_apply]
      split_ifs
      · exact setEvents_setEvents true false th
      · rfl

end ExplicitPhase

/-! ## Nothing before the first `rd_start` is left -/

/-- Sessions with the same parameters and the same thread frames. -/
structure SameFrames (s s' : Session) : Prop where
  ctl : s.toSessionCtl = s'.toSessionCtl
  frames : s.threads.map Thread.frame = s'.threads.map Thread.frame

namespace SameFrames

variable {s s' : Session}

theorem cleared_eq (h : SameFrames s s') :
    (s.setWindow false).cleared = (s'.setWindow false).cleared := by
  have hwindow : ∀ l : List Thread,
      (l.map fun th => if th.active then th.setEvents false else th).map (fun th => th.frame.fresh) =
        (l.map Thread.frame).map fun f =>
          (if f.active then f.setEvents false else f).fresh := by
    intro l
    rw [List.map_map, List.map_map]
    refine List.map_congr_left fun th _ => ?_
    simp only [Function.comp_apply]
    split_ifs
    · rw [frame_setEvents]
    · rfl
  obtain ⟨c, l⟩ := s
  obtain ⟨c', l'⟩ := s'
  obtain rfl : c = c' := h.ctl
  have hl : l.map Thread.frame = l'.map Thread.frame := h.frames
  simp only [Session.setWindow, Session.cleared, hwindow, hl]

theorem hit_left (h : SameFrames s s') (k : ℕ) (ht : Hit) :
    SameFrames (s.step (.hit k ht)) s' := by
  refine ⟨h.ctl, Eq.trans ?_ h.frames⟩
  exact map_modify_eq_map fun th _ => frame_hit s.toSessionCtl th ht

theorem findIdx (h : SameFrames s s') (tid : ℤ) :
    rdFindActiveThreadByTid s tid = rdFindActiveThreadByTid s' tid := by
  have hmap : ∀ r : Session, rdFindActiveThreadByTid r tid =
      (r.threads.map Thread.frame).findIdx? fun f => f.tid = tid ∧ f.active := by
    intro r
    rw [List.findIdx?_map]
    rfl
  rw [hmap s, hmap s', h.frames]

theorem registerThread (h : SameFrames s s') (arg : ThreadRegister) (env : RegisterEnv) :
    SameFrames (s.step (.ioctl (.registerThread arg env)))
      (s'.step (.ioctl (.registerThread arg env))) := by
  have hfind := h.findIdx arg.tid
  have hok : RegisterOk s arg env ↔ RegisterOk s' arg env := by
    have hc := h.ctl
    constructor
    · rintro ⟨a1, a2, a3, a4, a5, a6, a7, a8, a9, a10⟩
      rw [hc] at a1 a2 a5 a9 a10
      exact ⟨a1, a2, hfind ▸ a3, a4, a5, a6, a7, a8, a9, a10⟩
    · rintro ⟨a1, a2, a3, a4, a5, a6, a7, a8, a9, a10⟩
      rw [← hc] at a1 a2 a5 a9 a10
      exact ⟨a1, a2, hfind.trans a3, a4, a5, a6, a7, a8, a9, a10⟩
  change SameFrames (rdRegisterThreadLocked s arg env).2 (rdRegisterThreadLocked s' arg env).2
  by_cases hs : RegisterOk s arg env
  · rw [rdRegisterThreadLocked_of_ok hs, rdRegisterThreadLocked_of_ok (hok.mp hs)]
    refine ⟨h.ctl, ?_⟩
    simp only [List.map_append, h.frames, h.ctl]
  · rw [rdRegisterThreadLocked_snd_of_not_ok hs, rdRegisterThreadLocked_snd_of_not_ok (mt hok.mpr hs)]
    exact h

theorem unregisterThread (h : SameFrames s s') (tid : ℤ) :
    SameFrames (s.step (.ioctl (.unregisterThread tid)))
      (s'.step (.ioctl (.unregisterThread tid))) := by
  change SameFrames (rdUnregisterThreadLocked s tid).2 (rdUnregisterThreadLocked s' tid).2
  unfold rdUnregisterThreadLocked
  rw [← h.findIdx tid]
  cases rdFindActiveThreadByTid s tid with
  | none => exact h
  | some k =>
      refine ⟨h.ctl, ?_⟩
      change (s.threads.modify k _).map _ = (s'.threads.modify k _).map _
      rw [map_modify_of_comm frame_rdThreadDetachLive, map_modify_of_comm frame_rdThreadDetachLive,
        h.frames]

end SameFrames

/-- Before the first `rd_start`, dropping all hits changes no frame. -/
theorem AutoPhase.run_filter {p q : Controller} (hp : AutoPhase p) (hq : AutoPhase q)
    (h : SameFrames p.kernel q.kernel) {es : List RunEvent}
    (hes : ∀ e ∈ es, e.isStart = false) :
    SameFrames (p.run es).1.kernel (q.run (es.filter fun e => !e.isHit)).1.kernel := by
  induction es generalizing p q with
  | nil => exact h
  | cons e es ih =>
      have he := hes e List.mem_cons_self
      have htail : ∀ e' ∈ es, e'.isStart = false := fun e' h' => hes e' (List.mem_cons_of_mem e h')
      obtain ⟨hp', -, -⟩ := hp.step he
      obtain ⟨hq', -, -⟩ := hq.step he
      cases e with
      | rdStart mods => cases he
      | hit k ht => exact ih hp' hq (h.hit_left k ht) htail
      | rdStop =>
          have hpk : (p.step .rdStop).controller = p := congrArg Outcome.controller hp.stop
          have hqk : (q.step .rdStop).controller = q := congrArg Outcome.controller hq.stop
          refine ih hp' hq' ?_ htail
          rw [hpk, hqk]
          exact h
      | registerThread arg env => exact ih hp' hq' (h.registerThread arg env) htail
      | unregisterThread tid => exact ih hp' hq' (h.unregisterThread tid) htail

theorem exists_first_start (es : List RunEvent) : (∀ e ∈ es, e.isStart = false) ∨
    ∃ pre mods post, es = pre ++ .rdStart mods :: post ∧ ∀ e ∈ pre, e.isStart = false := by
  induction es with
  | nil => exact Or.inl (by simp)
  | cons e es ih =>
      cases he : e.isStart with
      | true =>
          cases e with
          | rdStart mods => exact Or.inr ⟨[], mods, es, rfl, by simp⟩
          | _ => cases he
      | false =>
          rcases ih with hnone | ⟨pre, mods, post, rfl, hpre⟩
          · exact Or.inl (List.forall_mem_cons.mpr ⟨he, hnone⟩)
          · exact Or.inr ⟨e :: pre, mods, post, rfl, List.forall_mem_cons.mpr ⟨he, hpre⟩⟩

theorem getLast?_calls (pre : List RunEvent) (mods : ℕ → ℕ → ℤ) (post : List RunEvent) :
    ((pre ++ .rdStart mods :: post).filter RunEvent.isCall).getLast?.map RunEvent.isStart =
      some (callFlag true post) := by
  have hcons : (RunEvent.rdStart mods :: post).filter RunEvent.isCall =
      .rdStart mods :: post.filter RunEvent.isCall := rfl
  unfold callFlag
  rw [List.filter_append, hcons, List.getLast?_append_of_ne_nil _ (by simp), List.getLast?_cons]
  cases (post.filter RunEvent.isCall).getLast? <;> rfl

/-- A run through the first `rd_start` and on. -/
theorem AutoPhase.run_start {p : Controller} (h : AutoPhase p) {pre : List RunEvent}
    (hpre : ∀ e ∈ pre, e.isStart = false) {mods : ℕ → ℕ → ℤ} (hmods : ∀ k i, mods k i = 0)
    (post : List RunEvent) :
    (p.run (pre ++ .rdStart mods :: post)).2 = [] ∧
      ExplicitPhase (p.run (pre ++ .rdStart mods :: post)).1 ∧
      (p.run (pre ++ .rdStart mods :: post)).1.issued.filter Issue.isReset =
        p.issued.filter Issue.isReset ++ [⟨.resetSession mods, false⟩] ∧
      (p.run (pre ++ .rdStart mods :: post)).1.kernel.running = callFlag true post := by
  obtain ⟨hauto, hthrown, hissued⟩ := h.run hpre
  have hexp := hauto.explicit hmods
  have hstart := hauto.start hmods
  obtain ⟨h1, h2, h3, h4⟩ := hexp.run post
  rw [Controller.run_append, hthrown]
  simp only [Controller.run, Controller.step]
  refine ⟨?_, h1, ?_, ?_⟩
  · rw [h2, hstart]
    rfl
  · rw [h3, hstart, ← hissued, List.filter_append]
    rfl
  · rw [h4, hstart]
    rfl

/-- Window semantics of the controller over every sequence of calls, hits and registrations in
which all moves succeed. -/
theorem window_semantics (s : Session) (hs : s.Reachable) (hr : s.running = false)
    (es : List RunEvent) (hes : ∀ e ∈ es, e.Succeeds) (p : Controller)
    (hp : p = (Controller.construct s).controller) :
    (p.run es).2 = [] ∧ (p.run es).1.windowOpen = (p.run es).1.kernel.running ∧
    ((∀ e ∈ es, e.isStart = false) →
      (p.run es).1.kernel.running = true ∧ (p.run es).1.issued.filter Issue.isReset = []) ∧
    ∀ pre mods post, es = pre ++ .rdStart mods :: post → (∀ e ∈ pre, e.isStart = false) →
      (es.filter RunEvent.isCall).getLast?.map RunEvent.isStart =
        some (p.run es).1.kernel.running ∧
      (p.run pre).1.issued.filter Issue.isReset = [] ∧
      (p.run (pre ++ [.rdStart mods])).1.issued.filter Issue.isReset =
        [⟨.resetSession mods, false⟩] ∧
      (p.run es).1.issued.filter Issue.isReset = [⟨.resetSession mods, false⟩] ∧
      (p.run es).1.kernel =
        (p.run ((pre.filter fun e => !e.isHit) ++ .rdStart mods :: post)).1.kernel ∧
      ∀ mods', (p.run (es ++ [.rdStart mods'])).1.kernel.threads.map (Thread.setEvents false) =
        (p.run es).1.kernel.threads.map (Thread.setEvents false) := by
  obtain ⟨hauto, -, hissued⟩ := AutoPhase.construct hs hr
  rw [← hp] at hauto hissued
  have hnoReset : p.issued.filter Issue.isReset = [] := by
    rw [hissued]
    rfl
  -- the run before the first start, and the run through it
  have hbefore : ∀ pre, (∀ e ∈ pre, e.isStart = false) →
      (p.run pre).1.issued.filter Issue.isReset = [] := by
    intro pre hpre
    rw [(hauto.run hpre).2.2]
    exact hnoReset
  have hmods : ∀ pre mods post, es = pre ++ .rdStart mods :: post → ∀ k i, mods k i = 0 :=
    fun pre mods post he => hes (.rdStart mods) (he ▸ by simp)
  have hthrough : ∀ pre mods post, es = pre ++ .rdStart mods :: post →
      (∀ e ∈ pre, e.isStart = false) → ∀ post', _ :=
    fun pre mods post he hpre post' => hauto.run_start hpre (hmods pre mods post he) post'
  refine ⟨?_, ?_, ?_, ?_⟩
  · rcases exists_first_start es with hnone | ⟨pre, mods, post, he, hpre⟩
    · exact (hauto.run hnone).2.1
    · rw [he]
      exact (hthrough pre mods post he hpre post).1
  · rcases exists_first_start es with hnone | ⟨pre, mods, post, he, hpre⟩
    · obtain ⟨ha, -, -⟩ := hauto.run hnone
      exact ha.windowOpen.trans ha.running.symm
    · rw [he]
      exact (hthrough pre mods post he hpre post).2.1.windowOpen
  · intro hnone
    exact ⟨(hauto.run hnone).1.running, hbefore es hnone⟩
  · intro pre mods post he hpre
    obtain ⟨-, hexp, hresets, hrunning⟩ := hthrough pre mods post he hpre post
    rw [hnoReset] at hresets
    have hone := (hthrough pre mods post he hpre []).2.2.1
    rw [hnoReset] at hone
    refine ⟨?_, hbefore pre hpre, hone, ?_, ?_, ?_⟩
    · rw [he, getLast?_calls, hrunning]
    · rw [he]
      exact hresets
    · have hpre' : ∀ e ∈ pre.filter fun e => !e.isHit, e.isStart = false :=
        fun e h => hpre e (List.mem_of_mem_filter h)
      have hsame : SameFrames (p.run pre).1.kernel
          (p.run (pre.filter fun e => !e.isHit)).1.kernel :=
        hauto.run_filter hauto ⟨rfl, rfl⟩ hpre
      have hstart := (hauto.run hpre).1.start (hmods pre mods post he)
      have hstart' := (hauto.run hpre').1.start (hmods pre mods post he)
      have heq : ((p.run pre).1.step (.rdStart mods)).controller =
          ((p.run (pre.filter fun e => !e.isHit)).1.step (.rdStart mods)).controller := by
        change ((p.run pre).1.kernelStart mods).controller =
          ((p.run (pre.filter fun e => !e.isHit)).1.kernelStart mods).controller
        rw [hstart, hstart', hsame.cleared_eq, (hauto.run hpre).2.2, (hauto.run hpre').2.2]
      rw [he, Controller.run_append, Controller.run_append]
      simp only [Controller.run, heq]
    · intro mods'
      rw [← he] at hexp
      rw [Controller.run_append]
      exact hexp.start_threads mods'

def unbalancedCalls : List RunEvent :=
  [.rdStop, .rdStart fun _ _ => 0, .rdStart fun _ _ => 0, .rdStop]

theorem window_semantics_unbalanced :
    ((Controller.construct (preparedSession 0)).controller.run unbalancedCalls).1.windowOpen =
      ((Controller.construct (preparedSession 0)).controller.run
        unbalancedCalls).1.kernel.running := by
  refine (window_semantics (preparedSession 0) ⟨1, smallSetup 0, rfl⟩ rfl unbalancedCalls ?_ _
    rfl).2.1
  simp [unbalancedCalls, RunEvent.Succeeds]

end RdSpeTool
