import RdSpeTool.KernelControl
import RdSpeTool.StateMachine

/-!
# Live threads and their events

The invariant behind the lookups of the hit path: the global list holds exactly the active contexts,
an active context has all its events, and no two contexts share one.
-/

namespace RdSpeTool

open ResourceLog

def Kernel.ctx (K : Kernel) (p : ℕ × ℕ) : Option ThreadCtx :=
  (K.sessions p.1).bind fun ks => ks.ctxs[p.2]?

namespace ThreadCtx

def events (c : ThreadCtx) : List ℕ :=
  c.memEvent.toList ++ c.bpEvents.filterMap id ++ c.wpEvents.filterMap id

/-- An active context has a full array of events for the parameters of its session. -/
structure Ready (ctl : SessionCtl) (c : ThreadCtx) : Prop where
  attached : c.liveDetached = false
  pinned : c.liveRefs ≠ 0
  bpArray : (c.arrays .bpEvents).isSome = true
  wpArray : (c.arrays .wpEvents).isSome = true
  bpEvents : ∃ bps, c.bpEvents = List.map some bps ∧ bps.length = ctl.targetCount
  wpEvents : ∃ wps, c.wpEvents = List.map some wps ∧ wps.length = ctl.wpCapacity

structure Sound (ctl : SessionCtl) (c : ThreadCtx) : Prop where
  ready : c.active = true → c.Ready ctl
  gone : c.active = false → c.events = []
  nodup : c.events.Nodup

end ThreadCtx

structure KernelSession.Sound (ks : KernelSession) : Prop where
  reachable : ks.session.Reachable
  loaded : ks.ctxs ≠ [] → ks.session.targetsLoaded = true
  ctxs : ∀ c ∈ ks.ctxs, c.Sound ks.session.toSessionCtl

structure Kernel.Sound (K : Kernel) : Prop where
  sessions : ∀ fd ks, K.sessions fd = some ks → ks.Sound
  live : ∀ p, p ∈ K.live ↔ ∃ c, K.ctx p = some c ∧ c.active = true
  nodup : K.live.Nodup
  held : ∀ p c, K.ctx p = some c → ∀ e ∈ c.events, .event e ∈ K.held
  apart : ∀ p q c d, K.ctx p = some c → K.ctx q = some d → ∀ e ∈ c.events, e ∈ d.events → p = q

/-! ## Contexts -/

namespace ThreadCtx

variable {c : ThreadCtx} {ctl ctl' : SessionCtl}

theorem Sound.congr (h : c.Sound ctl) (ht : ctl'.targetCount = ctl.targetCount)
    (hw : ctl'.wpCapacity = ctl.wpCapacity) : c.Sound ctl' where
  ready := by
    intro ha
    obtain ⟨hatt, hpin, hba, hwa, hb, hws⟩ := h.ready ha
    exact ⟨hatt, hpin, hba, hwa, by rwa [ht], by rwa [hw]⟩
  gone := h.gone
  nodup := h.nodup

theorem mem_filterMap_event {e : ℕ} {l : List (Option ℕ)} :
    .event e ∈ l.filterMap (Option.map KernelResource.event) ↔ e ∈ l.filterMap id := by
  simp [List.mem_filterMap]

theorem mem_events_of_resources {e : ℕ} (h : .event e ∈ c.resources) : e ∈ c.events := by
  unfold resources liveResources at h
  unfold events
  simp only [List.mem_append, List.mem_map, Option.mem_toList, Option.map_eq_some_iff,
    List.mem_singleton] at h ⊢
  rcases h with (((((⟨m, hm, he⟩ | hbp) | hwp) | ⟨a, -, ha⟩) | ⟨t, -, ht⟩) | ⟨a, -, ha⟩) | hself
  · cases he
    exact .inl (.inl hm)
  · split_ifs at hbp
    · exact .inl (.inr (mem_filterMap_event.mp hbp))
    · cases hbp
  · split_ifs at hwp
    · exact .inr (mem_filterMap_event.mp hwp)
    · cases hwp
  · cases ha
  · cases ht
  · cases ha
  · cases hself

theorem Ready.mem_resources (h : c.Ready ctl) {e : ℕ} (he : e ∈ c.events) :
    .event e ∈ c.resources := by
  unfold events at he
  unfold resources liveResources
  rw [if_pos h.bpArray, if_pos h.wpArray]
  simp only [List.mem_append, Option.mem_toList, Option.map_eq_some_iff] at he ⊢
  rcases he with (hmem | hbp) | hwp
  · exact .inl (.inl (.inl (.inl (.inl (.inl ⟨e, hmem, rfl⟩)))))
  · exact .inl (.inl (.inl (.inl (.inl (.inr (mem_filterMap_event.mpr hbp))))))
  · exact .inl (.inl (.inl (.inl (.inr (mem_filterMap_event.mpr hwp)))))

theorem mem_events_of_detachResources {e : ℕ} (h : .event e ∈ c.detachResources) :
    e ∈ c.events := by
  unfold detachResources at h
  split_ifs at h
  · cases h
  · exact mem_events_of_resources (List.mem_append_left _ (List.mem_append_left _ h))

theorem Sound.events_detach (h : c.Sound ctl) : c.detach.active = false ∧ c.detach.events = [] := by
  unfold detach
  split_ifs with hdet
  · have hinactive : c.active = false := by
      by_contra hne
      have hready := h.ready (by simpa using hne)
      rw [hready.attached] at hdet
      cases hdet
    exact ⟨hinactive, h.gone hinactive⟩
  · exact ⟨rfl, rfl⟩

theorem Sound.detach (h : c.Sound ctl) : c.detach.Sound ctl := by
  obtain ⟨hinactive, hevents⟩ := h.events_detach
  refine ⟨?_, fun _ => hevents, ?_⟩
  · intro hactive
    rw [hinactive] at hactive
    cases hactive
  · rw [hevents]
    exact List.nodup_nil

theorem Sound.mem_closeResources (h : c.Sound ctl) {e : ℕ} (he : .event e ∈ c.closeResources) :
    e ∈ c.events := by
  unfold closeResources at he
  split_ifs at he
  · rcases List.mem_append.mp he with hdetach | hrest
    · exact mem_events_of_detachResources hdetach
    · have hmem := mem_events_of_resources hrest
      rw [h.events_detach.2] at hmem
      cases hmem
  · exact mem_events_of_resources he

end ThreadCtx

/-! ## Registration -/

theorem setupWatchpoints_complete {c : SessionCtl} {ans : RegisterAnswers} {th : ThreadCtx}
    (h : (th.setupWatchpoints c ans).1 = 0) :
    ∃ wps : List ℕ, wps.length = c.wpCapacity ∧
      (th.setupWatchpoints c ans).2.1 = { th with wpEvents := wps.map some } := by
  have hcases := acquireAll_cases ans.wp 0 c.wpCapacity
  revert h
  unfold ThreadCtx.setupWatchpoints
  dsimp only
  obtain ⟨hnone, hlen, -⟩ | ⟨j, -, e, hsome, -⟩ := hcases
  · rw [hnone]
    refine fun _ => ⟨_, hlen, ?_⟩
    simp [ThreadCtx.withWpEvents, filled, hlen]
  · rw [hsome]
    exact fun h => absurd h e.ret_ne_zero

theorem setupBreakpoints_complete {c : SessionCtl} {ans : RegisterAnswers} {th : ThreadCtx}
    (h : (th.setupBreakpoints c ans).1 = 0) :
    ∃ bps wps : List ℕ, bps.length = c.targetCount ∧ wps.length = c.wpCapacity ∧
      (th.setupBreakpoints c ans).2.1 =
        { th with bpEvents := bps.map some, wpEvents := wps.map some } := by
  have hcases := acquireAll_cases ans.bp 0 c.targetCount
  revert h
  unfold ThreadCtx.setupBreakpoints
  dsimp only
  obtain ⟨hnone, hlen, -⟩ | ⟨j, -, e, hsome, -⟩ := hcases
  · rw [hnone]
    intro h
    obtain ⟨wps, hwps, heq⟩ := setupWatchpoints_complete h
    refine ⟨_, wps, hlen, hwps, ?_⟩
    dsimp only
    rw [heq]
    simp [ThreadCtx.withBpEvents, filled, hlen]
  · rw [hsome]
    exact fun h => absurd h e.ret_ne_zero

/-- A set-up that succeeds has filled both arrays of events. -/
theorem setupEvents_ready {c : SessionCtl} {ans : RegisterAnswers} {self t : ℕ}
    {arg : ThreadRegister} (h : ((ThreadCtx.alloc self t arg).setupEvents c ans).1 = 0) :
    ((ThreadCtx.alloc self t arg).setupEvents c ans).2.1.Ready c ∧
      ((ThreadCtx.alloc self t arg).setupEvents c ans).2.1.active = true ∧
      ((ThreadCtx.alloc self t arg).setupEvents c ans).2.1.tid = arg.tid := by
  revert h
  unfold ThreadCtx.setupEvents
  cases ans.mem with
  | error e => exact fun h => absurd h e.ret_ne_zero
  | ok mem =>
      dsimp only
      split_ifs with hok
      · exact fun h => absurd h (show (-enomem : ℤ) ≠ 0 by decide)
      · intro h
        have hok' : ans.arraysOk c.callchainMode = true := by simpa using hok
        obtain ⟨bps, wps, hbps, hwps, heq⟩ := setupBreakpoints_complete h
        dsimp only
        rw [heq]
        refine ⟨⟨rfl, Nat.one_ne_zero, ?_, ?_, ⟨bps, rfl, hbps⟩, ⟨wps, rfl, hwps⟩⟩, rfl, rfl⟩
        · exact ThreadCtx.arrays_of_ok (a := .bpEvents) hok' (by decide) rfl
        · exact ThreadCtx.arrays_of_ok (a := .wpEvents) hok' (by decide) rfl

/-- A registration that succeeds has set up the context completely and holds its resources. -/
theorem registerCtx_some {s : Session} {arg : ThreadRegister} {ans : RegisterAnswers} {ret : ℤ}
    {th : ThreadCtx} {log : List (Entry KernelResource)}
    (h : registerCtx s arg ans = (ret, some th, log)) :
    s.targetsLoaded = true ∧ Holds log th.resources ∧ th.Ready s.toSessionCtl ∧
      th.active = true ∧ th.tid = arg.tid := by
  unfold registerCtx at h
  split_ifs at h with hready
  · cases h
  · cases h
  · cases h
  cases htask : ans.task with
  | none =>
      rw [htask] at h
      cases h
  | some found =>
      obtain ⟨t, task⟩ := found
      rw [htask] at h
      dsimp only at h
      split_ifs at h
      · cases h
      · cases h
      cases hthread : ans.thread with
      | none =>
          rw [hthread] at h
          cases h
      | some self =>
          rw [hthread] at h
          dsimp only at h
          split_ifs at h with hret
          · cases h
          cases h
          have hloaded : s.targetsLoaded = true := by
            by_contra hne
            exact hready (.inr (by simpa using hne))
          exact ⟨hloaded, ThreadCtx.setupEvents_owned s.toSessionCtl ans self t arg,
            setupEvents_ready (not_not.mp hret)⟩

/-! ## Sessions -/

/-- An event of the session, with contexts that fit the session before it. -/
theorem KernelSession.Sound.step {ks ks' : KernelSession} (h : ks.Sound) (e : SessionEvent)
    (hsession : ks'.session = ks.session.step e)
    (hloaded : ks'.ctxs ≠ [] → ks.session.targetsLoaded = true)
    (hctxs : ∀ c ∈ ks'.ctxs, c.Sound ks.session.toSessionCtl) : ks'.Sound := by
  have hparams : ks'.ctxs ≠ [] → ∃ b, ks'.session.toSessionCtl =
      ks.session.toSessionCtl.withRunning b := by
    intro hne
    rw [hsession]
    exact Session.step_params (hloaded hne) e
  refine ⟨?_, ?_, ?_⟩
  · rw [hsession]
    exact h.reachable.step e
  · intro hne
    obtain ⟨b, hb⟩ := hparams hne
    exact (congrArg SessionCtl.targetsLoaded hb).trans (hloaded hne)
  · intro c hc
    obtain ⟨b, hb⟩ := hparams (List.ne_nil_of_mem hc)
    refine (hctxs c hc).congr ?_ ?_
    · exact (congrArg SessionCtl.targetCount hb).trans rfl
    · exact (congrArg SessionCtl.wpCapacity hb).trans rfl

/-! ## The machine -/

namespace Kernel

variable {K K' : Kernel} {fd : ℕ} {ks : KernelSession}

theorem ctx_put (o : ControlOutcome) (p : ℕ × ℕ) :
    (K.put fd o).ctx p = if p.1 = fd then o.session.ctxs[p.2]? else K.ctx p := by
  unfold ctx put
  by_cases hp : p.1 = fd
  · simp [hp]
  · simp [hp]

theorem ctx_of_session (h : K.sessions fd = some ks) (k : ℕ) : K.ctx (fd, k) = ks.ctxs[k]? := by
  unfold ctx
  rw [h]
  rfl

theorem sessions_put (o : ControlOutcome) {fd' : ℕ} {ks' : KernelSession}
    (h : (K.put fd o).sessions fd' = some ks') :
    fd' = fd ∧ ks' = o.session ∨ K.sessions fd' = some ks' := by
  by_cases hfd : fd' = fd
  · subst hfd
    left
    simpa [put, eq_comm] using h
  · right
    simpa [put, hfd] using h

/-- Every context is an old one, or has no events any more. -/
theorem Sound.shrink (h : K.Sound) (hsessions : ∀ fd ks, K'.sessions fd = some ks → ks.Sound)
    (hlive : ∀ p, p ∈ K'.live ↔ ∃ c, K'.ctx p = some c ∧ c.active = true) (hnodup : K'.live.Nodup)
    (hctx : ∀ p c, K'.ctx p = some c → c.events = [] ∨ K.ctx p = some c)
    (hheld : ∀ p c, K'.ctx p = some c → K.ctx p = some c →
      ∀ e ∈ c.events, .event e ∈ K'.held) : K'.Sound where
  sessions := hsessions
  live := hlive
  nodup := hnodup
  held := by
    intro p c hp e he
    rcases hctx p c hp with hnil | hold
    · rw [hnil] at he
      cases he
    · exact hheld p c hp hold e he
  apart := by
    intro p q c d hp hq e hec hed
    rcases hctx p c hp with hnil | hp'
    · rw [hnil] at hec
      cases hec
    rcases hctx q d hq with hnil | hq'
    · rw [hnil] at hed
      cases hed
    exact h.apart p q c d hp' hq' e hec hed

/-- The contexts, the list and the registered events stay. -/
theorem Sound.quiet (h : K.Sound) (hsessions : ∀ fd ks, K'.sessions fd = some ks → ks.Sound)
    (hctx : ∀ p, K'.ctx p = K.ctx p) (hlive : K'.live = K.live)
    (hheld : ∀ e, .event e ∈ K.held → .event e ∈ K'.held) : K'.Sound := by
  refine h.shrink hsessions ?_ ?_ ?_ ?_
  · intro p
    rw [hlive, hctx]
    exact h.live p
  · rw [hlive]
    exact h.nodup
  · intro p c hp
    rw [hctx] at hp
    exact .inr hp
  · intro p c _ hp e he
    exact hheld e (h.held p c hp e he)

theorem Sound.openFile (h : K.Sound) (hfd : K.sessions fd = none) (tgid : ℤ) :
    (K.openFile fd tgid).Sound := by
  refine h.quiet ?_ ?_ rfl (fun e he => he)
  · intro fd' ks' hks'
    by_cases hne : fd' = fd
    · subst hne
      have hnew : ks' = ⟨rdWpctlOpen tgid, [], none⟩ := by
        simpa [Kernel.openFile, eq_comm] using hks'
      rw [hnew]
      exact ⟨⟨tgid, [], rfl⟩, fun hnil => absurd rfl hnil, fun c hc => by cases hc⟩
    · have hold : K.sessions fd' = some ks' := by simpa [Kernel.openFile, hne] using hks'
      exact h.sessions fd' ks' hold
  · intro p
    unfold ctx Kernel.openFile
    by_cases hp : p.1 = fd
    · simp [hp, hfd]
    · simp [hp]

theorem Sound.releaseFile (h : K.Sound) (hfd : K.sessions fd = some ks) :
    (K.releaseFile fd ks).Sound := by
  have hctx : ∀ p, (K.releaseFile fd ks).ctx p = if p.1 = fd then none else K.ctx p := by
    intro p
    unfold ctx Kernel.releaseFile
    by_cases hp : p.1 = fd
    · simp [hp]
    · simp [hp]
  have hold : ∀ p c, (K.releaseFile fd ks).ctx p = some c → p.1 ≠ fd ∧ K.ctx p = some c := by
    intro p c hp
    rw [hctx] at hp
    split_ifs at hp with hne
    exact ⟨hne, hp⟩
  refine h.shrink ?_ ?_ (h.nodup.filter _) (fun p c hp => .inr (hold p c hp).2) ?_
  · intro fd' ks' hks'
    by_cases hne : fd' = fd
    · subst hne
      simp [Kernel.releaseFile] at hks'
    · have hsame : K.sessions fd' = some ks' := by simpa [Kernel.releaseFile, hne] using hks'
      exact h.sessions fd' ks' hsame
  · intro p
    rw [hctx]
    have hmem : p ∈ (K.releaseFile fd ks).live ↔ p ∈ K.live ∧ p.1 ≠ fd := by
      simp [Kernel.releaseFile]
    rw [hmem, h.live p]
    by_cases hp : p.1 = fd
    · simp [hp]
    · simp [hp]
  · intro p c hp _ e he
    obtain ⟨hne, hp'⟩ := hold p c hp
    refine mem_settle (h.held p c hp' e he) ?_
    rw [released_map_release, List.mem_append]
    rintro (hclosed | hmem)
    · obtain ⟨d, hd, hed⟩ := List.mem_flatMap.mp hclosed
      obtain ⟨k, hk⟩ := List.mem_iff_getElem?.mp hd
      have hed' := ((h.sessions fd ks hfd).ctxs d hd).mem_closeResources hed
      have hsame := h.apart p (fd, k) c d hp' ((ctx_of_session hfd k).trans hk) e he hed'
      exact hne (congrArg Prod.fst hsame)
    · simp at hmem

theorem Sound.put_quiet (h : K.Sound) (hfd : K.sessions fd = some ks) {o : ControlOutcome}
    (hs : o.session.Sound) (hctxs : o.session.ctxs = ks.ctxs) (hlive : o.live = K.live)
    (hheld : ∀ e, .event e ∈ K.held → .event e ∈ settle K.held o.log) : (K.put fd o).Sound := by
  refine h.quiet ?_ ?_ hlive hheld
  · intro fd' ks' hks'
    rcases sessions_put o hks' with ⟨-, rfl⟩ | hold
    · exact hs
    · exact h.sessions fd' ks' hold
  · intro p
    rw [ctx_put, hctxs]
    split_ifs with hp
    · rw [← ctx_of_session hfd, ← hp]
    · rfl

/-- A quiet ioctl of the session. -/
theorem Sound.put_step (h : K.Sound) (hfd : K.sessions fd = some ks) {o : ControlOutcome}
    (cmd : Ioctl) (hsession : o.session.session = (rdWpctlIoctl ks.session cmd).2)
    (hctxs : o.session.ctxs = ks.ctxs) (hlive : o.live = K.live)
    (hheld : ∀ e, .event e ∈ K.held → .event e ∈ settle K.held o.log) : (K.put fd o).Sound := by
  have hks := h.sessions fd ks hfd
  refine h.put_quiet hfd (hks.step (.ioctl cmd) hsession ?_ ?_) hctxs hlive hheld
  · rw [hctxs]
    exact hks.loaded
  · rw [hctxs]
    exact hks.ctxs

theorem Sound.put_idle (h : K.Sound) (hfd : K.sessions fd = some ks) {o : ControlOutcome}
    (hidle : o.Idle ks K.live) : (K.put fd o).Sound := by
  obtain ⟨hsession, hlive, hbalanced⟩ := hidle
  refine h.put_quiet hfd ?_ (by rw [hsession]) hlive ?_
  · rw [hsession]
    exact h.sessions fd ks hfd
  · intro e he
    rwa [settle_of_perm K.held hbalanced]

/-- Only the entry that was detached leads to another context. -/
theorem ctx_detachThread (hfd : K.sessions fd = some ks) (k : ℕ) (p : ℕ × ℕ) :
    (K.put fd (ks.detachThread K.live fd k)).ctx p =
      if p = (fd, k) then (K.ctx p).map ThreadCtx.detach else K.ctx p := by
  rw [ctx_put]
  unfold KernelSession.detachThread
  dsimp only
  rw [List.getElem?_modify]
  obtain ⟨fd', j⟩ := p
  by_cases hne : fd' = fd
  · subst hne
    rw [if_pos rfl, ctx_of_session hfd]
    by_cases hk : k = j
    · simp [hk]
    · have hj : ¬ j = k := fun he => hk he.symm
      simp [hk, hj]
  · simp [hne]

theorem Sound.detachThread (h : K.Sound) (hfd : K.sessions fd = some ks) (k : ℕ)
    (hs : (ks.detachThread K.live fd k).session.Sound) :
    (K.put fd (ks.detachThread K.live fd k)).Sound := by
  have hks := h.sessions fd ks hfd
  -- the context behind the detached entry is empty
  have hempty : ∀ c, (K.put fd (ks.detachThread K.live fd k)).ctx (fd, k) = some c →
      c.active = false ∧ c.events = [] := by
    intro c hc
    rw [ctx_detachThread hfd, if_pos rfl, ctx_of_session hfd] at hc
    obtain ⟨d, hd, rfl⟩ := Option.map_eq_some_iff.mp hc
    exact (hks.ctxs d (List.mem_of_getElem? hd)).events_detach
  have hother : ∀ p, p ≠ (fd, k) →
      (K.put fd (ks.detachThread K.live fd k)).ctx p = K.ctx p := by
    intro p hp
    rw [ctx_detachThread hfd, if_neg hp]
  refine h.shrink ?_ ?_ (h.nodup.erase _) ?_ ?_
  · intro fd' ks' hks'
    rcases sessions_put _ hks' with ⟨-, rfl⟩ | hold
    · exact hs
    · exact h.sessions fd' ks' hold
  · intro p
    have hmem : p ∈ (K.put fd (ks.detachThread K.live fd k)).live ↔ p ≠ (fd, k) ∧ p ∈ K.live :=
      h.nodup.mem_erase_iff
    rw [hmem]
    by_cases hp : p = (fd, k)
    · subst hp
      refine ⟨fun hne => absurd rfl hne.1, ?_⟩
      rintro ⟨c, hc, hactive⟩
      rw [(hempty c hc).1] at hactive
      cases hactive
    · rw [hother p hp, h.live p]
      simp [hp]
  · intro p c hc
    by_cases hp : p = (fd, k)
    · subst hp
      exact .inl (hempty c hc).2
    · rw [hother p hp] at hc
      exact .inr hc
  · intro p c hc hold e he
    refine mem_settle (h.held p c hold e he) ?_
    unfold KernelSession.detachThread
    rw [released_map_release]
    intro hreleased
    cases hk : ks.ctxs[k]? with
    | none => simp [hk] at hreleased
    | some d =>
        rw [hk] at hreleased
        have hed := ThreadCtx.mem_events_of_detachResources hreleased
        have hp := h.apart p (fd, k) c d hold ((ctx_of_session hfd k).trans hk) e he hed
        subst hp
        rw [(hempty c hc).2] at he
        cases he

theorem Sound.unregister (h : K.Sound) (hfd : K.sessions fd = some ks) (tid : ℤ) :
    (K.put fd (ks.unregisterThread K.live fd tid)).Sound := by
  have hks := h.sessions fd ks hfd
  unfold KernelSession.unregisterThread
  cases hf : rdFindActiveThreadByTid ks.session tid with
  | none => exact h.put_idle hfd (KernelSession.idle_unchanged (List.Perm.refl _))
  | some k =>
      refine h.detachThread hfd k (hks.step (.ioctl (.unregisterThread tid)) ?_ ?_ ?_)
      · change _ = (rdUnregisterThreadLocked ks.session tid).2
        unfold rdUnregisterThreadLocked
        rw [hf]
        rfl
      · intro hne
        apply hks.loaded
        intro hnil
        apply hne
        change ks.ctxs.modify k _ = []
        rw [hnil, List.modify_nil]
      · intro c hc
        obtain ⟨j, hj⟩ := List.mem_iff_getElem?.mp hc
        change (ks.ctxs.modify k ThreadCtx.detach)[j]? = some c at hj
        rw [List.getElem?_modify] at hj
        obtain ⟨d, hd, rfl⟩ := Option.map_eq_some_iff.mp hj
        have hsound := hks.ctxs d (List.mem_of_getElem? hd)
        split_ifs
        · exact hsound.detach
        · exact hsound

/-- The events of a new context were not registered before, and differ. -/
def Fresh (K : Kernel) (th : ThreadCtx) : Prop :=
  th.events.Nodup ∧ ∀ e ∈ th.events, .event e ∉ K.held

instance (K : Kernel) (th : ThreadCtx) : Decidable (K.Fresh th) :=
  inferInstanceAs (Decidable (_ ∧ _))

/-- A new context stands behind the first free place. -/
theorem ctx_registerThread (hfd : K.sessions fd = some ks) {arg : ThreadRegister}
    {ans : RegisterAnswers} {ret : ℤ} {th : ThreadCtx} {log : List (Entry KernelResource)}
    (hreg : registerCtx ks.session arg ans = (ret, some th, log)) (p : ℕ × ℕ) :
    (K.put fd (ks.registerThread K.live fd arg ans)).ctx p =
      if p = (fd, ks.ctxs.length) then some th else K.ctx p := by
  rw [ctx_put]
  unfold KernelSession.registerThread
  rw [hreg]
  dsimp only
  obtain ⟨fd', j⟩ := p
  by_cases hne : fd' = fd
  · subst hne
    rw [if_pos rfl, ctx_of_session hfd, List.getElem?_append]
    by_cases hlt : j < ks.ctxs.length
    · have hj : j ≠ ks.ctxs.length := hlt.ne
      simp [hlt, hj]
    · rw [if_neg hlt, List.getElem?_eq_none (Nat.not_lt.mp hlt)]
      by_cases hj : j = ks.ctxs.length
      · simp [hj]
      · have hpos : j - ks.ctxs.length ≠ 0 := by omega
        simp [hj, hpos]
  · simp [hne]

theorem Sound.register (h : K.Sound) (hfd : K.sessions fd = some ks) {arg : ThreadRegister}
    {ans : RegisterAnswers} {ret : ℤ} {th : ThreadCtx} {log : List (Entry KernelResource)}
    (hreg : registerCtx ks.session arg ans = (ret, some th, log)) (hfresh : K.Fresh th) :
    (K.put fd (ks.registerThread K.live fd arg ans)).Sound := by
  have hks := h.sessions fd ks hfd
  obtain ⟨hloaded, hholds, hready, hactive, -⟩ := registerCtx_some hreg
  have hctx := ctx_registerThread hfd hreg
  have ho : ks.registerThread K.live fd arg ans = ⟨ret, { ks with
      session := { ks.session with
        threads := ks.session.threads ++ [newThread ks.session.toSessionCtl arg] }
      ctxs := ks.ctxs ++ [th] }, (fd, ks.ctxs.length) :: K.live, log⟩ := by
    unfold KernelSession.registerThread
    rw [hreg]
  have hfree : K.ctx (fd, ks.ctxs.length) = none := by
    rw [ctx_of_session hfd]
    exact List.getElem?_eq_none le_rfl
  have hheld : (K.put fd (ks.registerThread K.live fd arg ans)).held =
      K.held + ↑th.resources := by
    rw [ho]
    exact hholds.settle K.held
  have hnew : ∀ p d, K.ctx p = some d → ∀ e ∈ th.events, e ∉ d.events := by
    intro p d hp e he hed
    exact hfresh.2 e he (h.held p d hp e hed)
  have hs : (ks.registerThread K.live fd arg ans).session.Sound := by
    have hrefines := @KernelSession.registerThread_refines ks K.live fd arg ans
    refine hks.step (.ioctl (.registerThread arg (ans.env ks.session.toSessionCtl)))
      (congrArg Prod.snd hrefines) (fun _ => hloaded) ?_
    rw [ho]
    intro c hc
    rcases List.mem_append.mp hc with hold | hlast
    · exact hks.ctxs c hold
    · rw [List.mem_singleton.mp hlast]
      refine ⟨fun _ => hready, ?_, hfresh.1⟩
      intro hfalse
      rw [hactive] at hfalse
      cases hfalse
  refine ⟨?_, ?_, ?_, ?_, ?_⟩
  · intro fd' ks' hks'
    rcases sessions_put _ hks' with ⟨-, rfl⟩ | hold
    · exact hs
    · exact h.sessions fd' ks' hold
  · intro p
    rw [hctx, ho]
    change p ∈ (fd, ks.ctxs.length) :: K.live ↔ _
    rw [List.mem_cons, h.live p]
    split_ifs with hp
    · subst hp
      simp [hactive]
    · simp [hp]
  · rw [ho]
    refine List.nodup_cons.mpr ⟨?_, h.nodup⟩
    intro hmem
    obtain ⟨c, hc, -⟩ := (h.live _).mp hmem
    rw [hfree] at hc
    cases hc
  · intro p c hp e he
    rw [hheld, Multiset.mem_add]
    rw [hctx] at hp
    split_ifs at hp with hpnew
    · cases hp
      exact .inr (Multiset.mem_coe.mpr (hready.mem_resources he))
    · exact .inl (h.held p c hp e he)
  · intro p q c d hp hq e hec hed
    rw [hctx] at hp hq
    split_ifs at hp with hpnew
    · cases hp
      split_ifs at hq with hqnew
      · rw [hpnew, hqnew]
      · exact absurd hed (hnew q d hq e hec)
    · split_ifs at hq with hqnew
      · cases hq
        exact absurd hec (hnew p c hp e hed)
      · exact h.apart p q c d hp hq e hec hed

end Kernel

def ControlIoctl.newCtx (ks : KernelSession) (copyOk : Bool) : ControlIoctl → Option ThreadCtx
  | .registerThread arg ans => if copyOk then (registerCtx ks.session arg ans).2.1 else none
  | _ => none

namespace Kernel

variable {K : Kernel} {fd : ℕ} {ks : KernelSession}

theorem Sound.registerThread (h : K.Sound) (hfd : K.sessions fd = some ks) {arg : ThreadRegister}
    {ans : RegisterAnswers}
    (hfresh : ∀ th, (registerCtx ks.session arg ans).2.1 = some th → K.Fresh th) :
    (K.put fd (ks.registerThread K.live fd arg ans)).Sound := by
  have hbalanced := registerCtx_balanced ks.session arg ans
  rcases hr : registerCtx ks.session arg ans with ⟨ret, _ | th, log⟩
  · rw [hr] at hbalanced
    have hsame : ks.registerThread K.live fd arg ans = ks.unchanged K.live ret log := by
      unfold KernelSession.registerThread
      rw [hr]
    rw [hsame]
    exact h.put_idle hfd (KernelSession.idle_unchanged (hbalanced rfl))
  · rw [hr] at hfresh
    exact h.register hfd hr (hfresh th rfl)

/-- Loading targets touches no event. -/
theorem Sound.load (h : K.Sound) (hfd : K.sessions fd = some ks) (hasPtr : Bool)
    (targets : List Target) (memdup : Except Errno ℕ) (alloc : Option ℕ) :
    (K.put fd (ks.loadTargets K.live hasPtr targets memdup alloc)).Sound := by
  have hrefines := @KernelSession.loadTargets_refines ks K.live hasPtr targets memdup alloc
  have hkeeps : (ks.loadTargets K.live hasPtr targets memdup alloc).session.ctxs = ks.ctxs ∧
      (ks.loadTargets K.live hasPtr targets memdup alloc).live = K.live ∧
      ∀ e, .event e ∉ released (ks.loadTargets K.live hasPtr targets memdup alloc).log := by
    unfold KernelSession.loadTargets KernelSession.unchanged
    split_ifs
    · exact ⟨rfl, rfl, fun e => List.not_mem_nil⟩
    · exact ⟨rfl, rfl, fun e => List.not_mem_nil⟩
    cases memdup with
    | error e => exact ⟨rfl, rfl, fun e => List.not_mem_nil⟩
    | ok user =>
        cases alloc with
        | none => exact ⟨rfl, rfl, fun e => by simp [released, Entry.released]⟩
        | some mem =>
            dsimp only
            cases copyTargets targets with
            | none => exact ⟨rfl, rfl, fun e => by simp [released, Entry.released]⟩
            | some copy => exact ⟨rfl, rfl, fun e => by simp [released, Entry.released]⟩
  obtain ⟨hctxs, hlive, hreleased⟩ := hkeeps
  exact h.put_step hfd (.loadTargets _ _ _) (congrArg Prod.snd hrefines) hctxs hlive
    fun e he => mem_settle he (hreleased e)

theorem Sound.ioctl (h : K.Sound) (hfd : K.sessions fd = some ks) {copyOk : Bool}
    {cmd : ControlIoctl} (hfresh : ∀ th, cmd.newCtx ks copyOk = some th → K.Fresh th) :
    (K.ioctl fd copyOk cmd).2.1.Sound := by
  have hput : (K.ioctl fd copyOk cmd).2.1 = K.put fd (ks.ioctl K.live fd copyOk cmd) := by
    unfold Kernel.ioctl
    rw [hfd]
  have hnone : ∀ e, .event e ∈ K.held → .event e ∈ settle K.held [] := by
    intro e he
    exact mem_settle he (by simp [released])
  have hfault : (K.put fd (ks.unchanged K.live (-efault) [])).Sound :=
    h.put_idle hfd (KernelSession.idle_unchanged (List.Perm.refl _))
  rw [hput]
  cases cmd with
  | configSession cfg =>
      unfold KernelSession.ioctl
      split_ifs
      · exact hfault
      · exact h.put_step hfd (.configSession cfg) rfl rfl rfl hnone
  | loadTargets hasPtr targets memdup alloc =>
      unfold KernelSession.ioctl
      split_ifs
      · exact hfault
      · exact h.load hfd hasPtr targets memdup alloc
  | registerThread arg ans =>
      unfold KernelSession.ioctl
      split_ifs with hcopy
      · exact hfault
      · refine h.registerThread hfd ?_
        intro th hth
        have hcopied : copyOk = true := by simpa using hcopy
        exact hfresh th ((if_pos hcopied).trans hth)
  | unregisterThread tid =>
      unfold KernelSession.ioctl
      split_ifs
      · exact hfault
      · exact h.unregister hfd tid
  | startWindow => exact h.put_step hfd .startWindow rfl rfl rfl hnone
  | stopWindow => exact h.put_step hfd .stopWindow rfl rfl rfl hnone
  | resetSession mods => exact h.put_step hfd (.resetSession mods) rfl rfl rfl hnone

end Kernel

end RdSpeTool
