import RdSpeTool.KernelInvariant
import RdSpeTool.Schedule

/-!
# Routing of hits

The kprobes see every breakpoint and watchpoint of the machine. A handler scans the list of live
threads for the event it was called with, pins the thread that owns it and hands the hit over. For a
breakpoint it also compares the id of the running task with the id the thread was registered under;
the first is global, the second belongs to the namespace of the caller.
-/

namespace RdSpeTool

open Schedule ResourceLog

inductive EventType
  | execute
  | watch
  | other
  deriving DecidableEq

def rdInitBpAttr : EventType := .execute

inductive HandlerAction
  | get (p : ℕ × ℕ)
  | put (p : ℕ × ℕ)
  | bpHit (p : ℕ × ℕ) (targetIndex : ℕ)
  | wpHit (p : ℕ × ℕ) (slotIndex : ℕ)
  deriving DecidableEq

namespace Kernel

variable (K : Kernel)

def modifyCtx (p : ℕ × ℕ) (f : ThreadCtx → ThreadCtx) : Kernel :=
  { K with sessions := Function.update K.sessions p.1 ((K.sessions p.1).map fun ks =>
      { ks with ctxs := ks.ctxs.modify p.2 f }) }

def liveGet (p : ℕ × ℕ) : Option Kernel :=
  (K.ctx p).bind fun c =>
    if c.active = false ∨ c.liveDetached = true then none
    else if c.liveRefs = 0 then none
    else some (K.modifyCtx p fun c => { c with liveRefs := c.liveRefs + 1 })

def livePut (p : ℕ × ℕ) : Kernel :=
  K.modifyCtx p fun c => { c with liveRefs := c.liveRefs - 1 }

/-- The scan of a lookup: the first live thread with the event among its first `count` ones, if it
can be pinned. -/
def lookup (array : ThreadArray) (events : ThreadCtx → List (Option ℕ)) (count : SessionCtl → ℕ)
    (e : ℕ) : List (ℕ × ℕ) → Option ((ℕ × ℕ) × ℕ × Kernel)
  | [] => none
  | p :: rest =>
      match K.sessions p.1, K.ctx p with
      | some ks, some c =>
          if c.active = false ∨ c.arrays array = none then lookup array events count e rest
          else
            match ((events c).take (count ks.session.toSessionCtl)).findIdx? (· = some e) with
            | none => lookup array events count e rest
            | some i =>
                match K.liveGet p with
                | none => lookup array events count e rest
                | some K' => some (p, i, K')
      | _, _ => lookup array events count e rest

def lookupBpSiteRcu (e : ℕ) : Option ((ℕ × ℕ) × ℕ × Kernel) :=
  K.lookup .bpEvents ThreadCtx.bpEvents SessionCtl.targetCount e K.live

def lookupWpSlotRcu (e : ℕ) : Option ((ℕ × ℕ) × ℕ × Kernel) :=
  K.lookup .wpEvents ThreadCtx.wpEvents SessionCtl.wpCapacity e K.live

def handle (p : ℕ × ℕ) (h : Hit) : Kernel :=
  { K with sessions := Function.update K.sessions p.1 ((K.sessions p.1).map fun ks =>
      { ks with session := ks.session.step (.hit p.2 h) }) }

end Kernel

/-- `rd_perf_event_overflow_pre` for an event with its type; `pid` is the global id of the running
task. -/
def rdPerfEventOverflowPre (K : Kernel) (pid : ℤ) (event : Option (ℕ × EventType))
    (regs : Option PtRegs) (env : HitEnv) : List HandlerAction × Kernel :=
  match event, regs with
  | some (e, type), some r =>
      if type ≠ .execute then ([], K)
      else
        match K.lookupBpSiteRcu e with
        | none => ([], K)
        | some (p, i, K') =>
            if (K'.ctx p).map ThreadCtx.tid ≠ some pid then ([.get p, .put p], K'.livePut p)
            else ([.get p, .bpHit p i, .put p], (K'.handle p (.bp i (some r) env)).livePut p)
  | _, _ => ([], K)

def rdWatchpointReportPre (K : Kernel) (event : Option ℕ) (regs : Option PtRegs) (env : HitEnv) :
    List HandlerAction × Kernel :=
  match event, regs with
  | some e, some r =>
      if r.userMode = false then ([], K)
      else
        match K.lookupWpSlotRcu e with
        | none => ([], K)
        | some (p, i, K') =>
            ([.get p, .wpHit p i, .put p], (K'.handle p (.wp i (some r) env)).livePut p)
  | _, _ => ([], K)

inductive KernelStep
  | openFile (fd : ℕ) (tgid : ℤ)
  | ioctl (fd : ℕ) (copyOk : Bool) (cmd : ControlIoctl)
  | release (fd : ℕ)
  | overflow (pid : ℤ) (event : Option (ℕ × EventType)) (regs : Option PtRegs) (env : HitEnv)
  | watchpoint (event : Option ℕ) (regs : Option PtRegs) (env : HitEnv)

namespace Kernel

def initial : Kernel := ⟨fun _ => none, [], 0⟩

/-- An ioctl that creates events gets ones that are not registered yet. -/
def step (K : Kernel) : KernelStep → Option Kernel
  | .openFile fd tgid =>
      match K.sessions fd with
      | some _ => none
      | none => some (K.openFile fd tgid)
  | .ioctl fd copyOk cmd =>
      match K.sessions fd with
      | none => none
      | some ks =>
          if ((cmd.newCtx ks copyOk).all fun th => decide (K.Fresh th)) = true then
            some (K.ioctl fd copyOk cmd).2.1
          else none
  | .release fd => (K.sessions fd).map fun ks => K.releaseFile fd ks
  | .overflow pid event regs env => some (rdPerfEventOverflowPre K pid event regs env).2
  | .watchpoint event regs env => some (rdWatchpointReportPre K event regs env).2

end Kernel

/-! ## What a handler leaves -/

namespace Kernel

variable {K K' : Kernel} {p : ℕ × ℕ}

def pinned (K : Kernel) (p : ℕ × ℕ) : Kernel :=
  K.modifyCtx p fun c => { c with liveRefs := c.liveRefs + 1 }

theorem ctx_pinned : (K.pinned p).ctx p =
    (K.ctx p).map fun c => { c with liveRefs := c.liveRefs + 1 } := by
  unfold ctx pinned modifyCtx
  cases K.sessions p.1 with
  | none => simp
  | some ks => simp

/-- A reference taken and dropped. -/
theorem modify_inc_dec (ctxs : List ThreadCtx) (k : ℕ) :
    (ctxs.modify k fun c => { c with liveRefs := c.liveRefs + 1 }).modify k
      (fun c => { c with liveRefs := c.liveRefs - 1 }) = ctxs := by
  rw [List.modify_modify_eq]
  exact List.modify_id k ctxs

/-- Dropping the reference gives the old state back. -/
theorem livePut_pinned : (K.pinned p).livePut p = K := by
  unfold livePut pinned modifyCtx
  simp only [Function.update_self, Function.update_idem, Option.map_map, Function.comp_def,
    modify_inc_dec, Option.map_id', Function.update_eq_self]

theorem livePut_handle (h : Hit) : ((K.pinned p).handle p h).livePut p = K.handle p h := by
  unfold livePut handle pinned modifyCtx
  simp only [Function.update_self, Function.update_idem, Option.map_map, Function.comp_def,
    modify_inc_dec]

theorem ctx_handle (h : Hit) (q : ℕ × ℕ) : (K.handle p h).ctx q = K.ctx q := by
  unfold ctx handle
  by_cases hq : q.1 = p.1
  · cases hs : K.sessions p.1 with
    | none => simp [hq, hs]
    | some ks => simp [hq, hs]
  · simp [hq]

theorem Sound.handle (hK : K.Sound) (h : Hit) : (K.handle p h).Sound := by
  refine hK.quiet ?_ (ctx_handle h) rfl (fun e he => he)
  intro fd ks hks
  by_cases hfd : fd = p.1
  · subst hfd
    cases hs : K.sessions p.1 with
    | none => simp [Kernel.handle, hs] at hks
    | some ks' =>
        have hnew : ks = { ks' with session := ks'.session.step (.hit p.2 h) } := by
          simpa [Kernel.handle, hs, eq_comm] using hks
        have hold := hK.sessions p.1 ks' hs
        rw [hnew]
        exact hold.step (.hit p.2 h) rfl hold.loaded hold.ctxs
  · have hold : K.sessions fd = some ks := by simpa [Kernel.handle, hfd] using hks
    exact hK.sessions fd ks hold

theorem liveGet_eq_some (h : K.liveGet p = some K') : K' = K.pinned p := by
  unfold liveGet at h
  obtain ⟨c, -, hc⟩ := Option.bind_eq_some_iff.mp h
  split_ifs at hc
  exact (Option.some.inj hc).symm

section Lookup

variable {array : ThreadArray} {events : ThreadCtx → List (Option ℕ)} {count : SessionCtl → ℕ}
  {e i : ℕ} {l : List (ℕ × ℕ)}

/-- A lookup pins the thread it returns, and changes nothing else. -/
theorem lookup_pinned (h : K.lookup array events count e l = some (p, i, K')) :
    K' = K.pinned p := by
  induction l with
  | nil => cases h
  | cons q rest ih =>
      rw [lookup] at h
      split at h
      · split_ifs at h
        · exact ih h
        · split at h
          · exact ih h
          · split at h
            · exact ih h
            · next hget =>
                cases h
                exact liveGet_eq_some hget
      · exact ih h

/-- The scan passes the threads without the event and stops at the one that has it. -/
theorem lookup_of_owner {ks : KernelSession} {c : ThreadCtx} (hp : p ∈ l)
    (hother : ∀ q ∈ l, q ≠ p → ∀ d, K.ctx q = some d → some e ∉ events d)
    (hks : K.sessions p.1 = some ks) (hc : K.ctx p = some c) (hactive : c.active = true)
    (harray : (c.arrays array).isSome = true)
    (hfind : ((events c).take (count ks.session.toSessionCtl)).findIdx? (· = some e) = some i)
    (hget : K.liveGet p = some K') :
    K.lookup array events count e l = some (p, i, K') := by
  induction l with
  | nil => cases hp
  | cons q rest ih =>
      rw [lookup]
      by_cases hq : q = p
      · subst hq
        have hnot : ¬ (c.active = false ∨ c.arrays array = none) := by
          rintro (hfalse | hnone)
          · rw [hactive] at hfalse
            cases hfalse
          · rw [hnone] at harray
            cases harray
        simp only [hks, hc, if_neg hnot, hfind, hget]
      · have hrest := ih ((List.mem_cons.mp hp).resolve_left fun he => hq he.symm)
          fun r hr => hother r (List.mem_cons_of_mem _ hr)
        have hmiss : ∀ d n, K.ctx q = some d →
            ((events d).take n).findIdx? (· = some e) = none := by
          intro d n hd
          rw [List.findIdx?_eq_none_iff]
          intro x hx
          have hne : x ≠ some e := by
            rintro rfl
            exact hother q List.mem_cons_self hq d hd (List.mem_of_mem_take hx)
          simpa using hne
        split
        · next ks' d _ hd =>
            split_ifs
            · exact hrest
            · rw [hmiss d _ hd]
              exact hrest
        · exact hrest

end Lookup

/-- A full array of distinct events has an event only at its place. -/
theorem findIdx?_full {xs : List ℕ} (hnd : xs.Nodup) {i e n : ℕ}
    (hi : (xs.map some)[i]? = some (some e)) (hn : xs.length = n) :
    ((xs.map some).take n).findIdx? (· = some e) = some i := by
  have hie : xs[i]? = some e := by simpa using hi
  obtain ⟨hlt, hget⟩ := List.getElem?_eq_some_iff.mp hie
  rw [List.take_of_length_le (by simp [hn]), List.findIdx?_map, List.findIdx?_eq_some_iff_getElem]
  refine ⟨hlt, by simpa using hget, ?_⟩
  intro j hj
  have hne : xs.get ⟨j, hj.trans hlt⟩ ≠ e := by
    intro he
    have hsame := (List.nodup_iff_injective_get.mp hnd) (he.trans hget.symm)
    exact hj.ne (congrArg Fin.val hsame)
  simpa using hne

/-- An active context can be pinned. -/
theorem liveGet_of_active (hK : K.Sound) {ks : KernelSession} {c : ThreadCtx}
    (hks : K.sessions p.1 = some ks) (hc : K.ctx p = some c) (hactive : c.active = true) :
    K.liveGet p = some (K.pinned p) ∧ c.Ready ks.session.toSessionCtl ∧ c.events.Nodup := by
  have hmem : c ∈ ks.ctxs := by
    have hget : ks.ctxs[p.2]? = some c := (ctx_of_session hks p.2).symm.trans hc
    exact List.mem_of_getElem? hget
  have hsound := (hK.sessions p.1 ks hks).ctxs c hmem
  have hready := hsound.ready hactive
  refine ⟨?_, hready, hsound.nodup⟩
  unfold liveGet
  rw [hc, Option.bind_some, if_neg (by simp [hactive, hready.attached]), if_neg hready.pinned]
  rfl

theorem exists_session {c : ThreadCtx} (hc : K.ctx p = some c) :
    ∃ ks, K.sessions p.1 = some ks := by
  obtain ⟨ks, hks, -⟩ := Option.bind_eq_some_iff.mp hc
  exact ⟨ks, hks⟩

/-- The event of an active thread leads to that thread and to no other. -/
theorem lookup_active (hK : K.Sound) {array : ThreadArray} {events : ThreadCtx → List (Option ℕ)}
    {count : SessionCtl → ℕ} {ks : KernelSession} {c : ThreadCtx} {i e : ℕ} {xs : List ℕ}
    (hks : K.sessions p.1 = some ks) (hc : K.ctx p = some c) (hactive : c.active = true)
    (harray : (c.arrays array).isSome = true) (hfull : events c = xs.map some)
    (hlen : xs.length = count ks.session.toSessionCtl) (hnodup : xs.Nodup)
    (hsub : ∀ d, some e ∈ events d → e ∈ d.events) (he : (events c)[i]? = some (some e)) :
    K.lookup array events count e K.live = some (p, i, K.pinned p) := by
  have hget := (liveGet_of_active hK hks hc hactive).1
  refine lookup_of_owner ((hK.live p).mpr ⟨c, hc, hactive⟩) ?_ hks hc hactive harray ?_ hget
  · intro q hq hne d hd hmem
    exact hne (hK.apart q p d c hd hc e (hsub d hmem) (hsub c (List.mem_of_getElem? he)))
  · rw [hfull] at he ⊢
    exact findIdx?_full hnodup he hlen

section Routing

variable {c : ThreadCtx} {i e : ℕ}

theorem lookupBpSiteRcu_eq (hK : K.Sound) (hc : K.ctx p = some c) (hactive : c.active = true)
    (he : c.bpEvents[i]? = some (some e)) : K.lookupBpSiteRcu e = some (p, i, K.pinned p) := by
  obtain ⟨ks, hks⟩ := exists_session hc
  obtain ⟨-, hready, hnodup⟩ := liveGet_of_active hK hks hc hactive
  obtain ⟨bps, hbps, hlen⟩ := hready.bpEvents
  unfold ThreadCtx.events at hnodup
  rw [hbps] at hnodup
  have hdistinct : bps.Nodup := by
    simpa using (List.nodup_append.mp (List.nodup_append.mp hnodup).1).2.1
  refine lookup_active hK hks hc hactive hready.bpArray hbps hlen hdistinct ?_ he
  intro d hd
  exact List.mem_append_left _ (List.mem_append_right _ (List.mem_filterMap.mpr ⟨_, hd, rfl⟩))

theorem lookupWpSlotRcu_eq (hK : K.Sound) (hc : K.ctx p = some c) (hactive : c.active = true)
    (he : c.wpEvents[i]? = some (some e)) : K.lookupWpSlotRcu e = some (p, i, K.pinned p) := by
  obtain ⟨ks, hks⟩ := exists_session hc
  obtain ⟨-, hready, hnodup⟩ := liveGet_of_active hK hks hc hactive
  obtain ⟨wps, hwps, hlen⟩ := hready.wpEvents
  unfold ThreadCtx.events at hnodup
  rw [hwps] at hnodup
  have hdistinct : wps.Nodup := by
    simpa using (List.nodup_append.mp hnodup).2.1
  refine lookup_active hK hks hc hactive hready.wpArray hwps hlen hdistinct ?_ he
  intro d hd
  exact List.mem_append_right _ (List.mem_filterMap.mpr ⟨_, hd, rfl⟩)

/-- The breakpoint handler compares the two ids, and hands the hit over if they are the same. -/
theorem rdPerfEventOverflowPre_eq (hK : K.Sound) (hc : K.ctx p = some c) (hactive : c.active = true)
    (he : c.bpEvents[i]? = some (some e)) (pid : ℤ) (r : PtRegs) (env : HitEnv) :
    rdPerfEventOverflowPre K pid (some (e, rdInitBpAttr)) (some r) env =
      if c.tid = pid then ([.get p, .bpHit p i, .put p], K.handle p (.bp i (some r) env))
      else ([.get p, .put p], K) := by
  have htid : ((K.pinned p).ctx p).map ThreadCtx.tid = some c.tid := by
    rw [ctx_pinned, hc]
    rfl
  unfold rdPerfEventOverflowPre
  dsimp only
  rw [if_neg (show ¬ rdInitBpAttr ≠ .execute from not_not.mpr rfl),
    lookupBpSiteRcu_eq hK hc hactive he]
  dsimp only
  rw [htid, livePut_pinned, livePut_handle]
  by_cases hpid : c.tid = pid
  · simp [hpid]
  · simp [hpid]

theorem rdWatchpointReportPre_eq (hK : K.Sound) (hc : K.ctx p = some c) (hactive : c.active = true)
    (he : c.wpEvents[i]? = some (some e)) {r : PtRegs} (huser : r.userMode = true) (env : HitEnv) :
    rdWatchpointReportPre K (some e) (some r) env =
      ([.get p, .wpHit p i, .put p], K.handle p (.wp i (some r) env)) := by
  unfold rdWatchpointReportPre
  dsimp only
  rw [if_neg (by simp [huser]), lookupWpSlotRcu_eq hK hc hactive he]
  dsimp only
  rw [livePut_handle]

end Routing

/-- A session with threads has targets, so an active thread has a breakpoint. -/
theorem exists_bpEvent (hK : K.Sound) {c : ThreadCtx} (hc : K.ctx p = some c)
    (hactive : c.active = true) : ∃ e, c.bpEvents[0]? = some (some e) := by
  obtain ⟨ks, hks⟩ := exists_session hc
  obtain ⟨-, hready, -⟩ := liveGet_of_active hK hks hc hactive
  obtain ⟨bps, hbps, hlen⟩ := hready.bpEvents
  have hsound := hK.sessions p.1 ks hks
  have hget : ks.ctxs[p.2]? = some c := (ctx_of_session hks p.2).symm.trans hc
  have hloaded := hsound.loaded (List.ne_nil_of_mem (List.mem_of_getElem? hget))
  have htargets := (hsound.reachable.wellFormed.targetsLoaded hloaded).2
  cases bps with
  | nil => exact absurd (List.length_eq_zero_iff.mp hlen.symm) htargets
  | cons e bps => exact ⟨e, by rw [hbps]; rfl⟩

/-! ## Runs -/

/-- A handler leaves the state alone, or one thread has handled one hit. -/
theorem overflow_cases (pid : ℤ) (event : Option (ℕ × EventType)) (regs : Option PtRegs)
    (env : HitEnv) :
    (rdPerfEventOverflowPre K pid event regs env).2 = K ∨
      ∃ p h, (rdPerfEventOverflowPre K pid event regs env).2 = K.handle p h := by
  unfold rdPerfEventOverflowPre
  split
  · split_ifs
    · exact .inl rfl
    · split
      · exact .inl rfl
      · next hlookup =>
          rw [lookup_pinned hlookup]
          split_ifs
          · exact .inl livePut_pinned
          · exact .inr ⟨_, _, livePut_handle _⟩
  · exact .inl rfl

theorem watchpoint_cases (event : Option ℕ) (regs : Option PtRegs) (env : HitEnv) :
    (rdWatchpointReportPre K event regs env).2 = K ∨
      ∃ p h, (rdWatchpointReportPre K event regs env).2 = K.handle p h := by
  unfold rdWatchpointReportPre
  split
  · split_ifs
    · exact .inl rfl
    · split
      · exact .inl rfl
      · next hlookup =>
          rw [lookup_pinned hlookup]
          exact .inr ⟨_, _, livePut_handle _⟩
  · exact .inl rfl

theorem sound_initial : initial.Sound where
  sessions := fun fd ks h => by cases h
  live := fun p => ⟨fun h => (by cases h), fun ⟨c, hc, _⟩ => (by cases hc)⟩
  nodup := List.nodup_nil
  held := fun p c h => by cases h
  apart := fun p q c d h => by cases h

theorem Sound.of_handler (hK : K.Sound) (h : K' = K ∨ ∃ p h, K' = K.handle p h) : K'.Sound := by
  rcases h with rfl | ⟨p, ht, rfl⟩
  · exact hK
  · exact hK.handle ht

theorem sound_step {st : KernelStep} (hK : K.Sound) (h : K.step st = some K') : K'.Sound := by
  cases st with
  | openFile fd tgid =>
      dsimp only [step] at h
      cases hfd : K.sessions fd with
      | some ks =>
          rw [hfd] at h
          cases h
      | none =>
          rw [hfd] at h
          cases h
          exact hK.openFile hfd tgid
  | ioctl fd copyOk cmd =>
      dsimp only [step] at h
      cases hfd : K.sessions fd with
      | none =>
          rw [hfd] at h
          cases h
      | some ks =>
          rw [hfd] at h
          dsimp only at h
          split_ifs at h with hfresh
          cases h
          refine hK.ioctl hfd ?_
          intro th hth
          rw [hth] at hfresh
          simpa using hfresh
  | release fd =>
      obtain ⟨ks, hfd, rfl⟩ := Option.map_eq_some_iff.mp h
      exact hK.releaseFile hfd
  | overflow pid event regs env =>
      cases h
      exact hK.of_handler (overflow_cases pid event regs env)
  | watchpoint event regs env =>
      cases h
      exact hK.of_handler (watchpoint_cases event regs env)

theorem sound_run {steps : List KernelStep} (h : run step initial steps = some K) : K.Sound :=
  run_invariant (fun _ _ _ hm hstep => sound_step hm hstep) sound_initial h

end Kernel

/-- A handler took one reference, called the one function `hit` on the thread it belongs to, dropped
the reference, and left every context as it was. -/
structure Routed (K : Kernel) (p : ℕ × ℕ) (hit : HandlerAction) (r : List HandlerAction × Kernel) :
    Prop where
  actions : r.1 = [.get p, hit, .put p]
  refs : ∀ q, r.2.ctx q = K.ctx q

open Kernel in
/-- In every state the module reaches, the hits of an active thread by its own task all go to this
thread exactly when the task has the same id globally as in the namespace it was registered from:
`global` translates the ids of that namespace. -/
theorem hit_routing_iff (steps : List KernelStep) (K : Kernel)
    (h : run step initial steps = some K) (p : ℕ × ℕ) (c : ThreadCtx) (hc : K.ctx p = some c)
    (hactive : c.active = true) (global : ℤ → ℤ) :
    ((∀ i e r env, c.bpEvents[i]? = some (some e) → Routed K p (.bpHit p i)
        (rdPerfEventOverflowPre K (global c.tid) (some (e, rdInitBpAttr)) (some r) env)) ∧
      ∀ i e r env, r.userMode = true → c.wpEvents[i]? = some (some e) → Routed K p (.wpHit p i)
        (rdWatchpointReportPre K (some e) (some r) env)) ↔
      global c.tid = c.tid := by
  have hK := sound_run h
  constructor
  · rintro ⟨hbp, -⟩
    obtain ⟨e, he⟩ := exists_bpEvent hK hc hactive
    by_contra hne
    have hrouted := (hbp 0 e smallRegs (smallHitEnv 0) he).actions
    rw [rdPerfEventOverflowPre_eq hK hc hactive he, if_neg fun hsame => hne hsame.symm] at hrouted
    cases hrouted
  · intro hsame
    refine ⟨?_, ?_⟩
    · intro i e r env he
      rw [rdPerfEventOverflowPre_eq hK hc hactive he, if_pos hsame.symm]
      exact ⟨rfl, ctx_handle _⟩
    · intro i e r env huser he
      rw [rdWatchpointReportPre_eq hK hc hactive he huser]
      exact ⟨rfl, ctx_handle _⟩

/-- Everything a thread needs, with the breakpoint at 51 and the watchpoint at 61. -/
def allAnswers : RegisterAnswers where
  task := some (3, ⟨1, [0]⟩)
  nrCpuIds := 4
  thread := some 100
  mem := .ok 50
  array := fun a => some (200 + a.ctorIdx)
  bp := fun i => .ok (51 + i)
  wp := fun i => .ok (61 + i)

def oneThread : List KernelStep :=
  [.openFile 0 1, .ioctl 0 true (.configSession (smallConfig 0)),
    .ioctl 0 true (.loadTargets true [loadTarget] (.ok 10) (some 11)),
    .ioctl 0 true (.registerThread smallThread allAnswers), .ioctl 0 true .startWindow]

theorem hit_routing_iff_initial : ∃ K c, run Kernel.step .initial oneThread = some K ∧
    K.ctx (0, 0) = some c ∧ c.tid = 7 ∧ ∀ r env, Routed K (0, 0) (.bpHit (0, 0) 0)
      (rdPerfEventOverflowPre K 7 (some (51, rdInitBpAttr)) (some r) env) := by
  refine ⟨_, _, rfl, rfl, rfl, ?_⟩
  intro r env
  exact ((hit_routing_iff oneThread _ rfl (0, 0) _ rfl rfl id).mpr rfl).1 0 51 r env rfl

/-- In a container the same task is number 4107 outside: its breakpoints are found and dropped. -/
theorem namespaced_hit_dropped : ∃ K c, run Kernel.step .initial oneThread = some K ∧
    K.ctx (0, 0) = some c ∧ c.active = true ∧ c.tid = 7 ∧ c.bpEvents[0]? = some (some 51) ∧
      ∀ r env, (rdPerfEventOverflowPre K 4107 (some (51, rdInitBpAttr)) (some r) env).1 =
        [.get (0, 0), .put (0, 0)] := by
  refine ⟨_, _, rfl, rfl, rfl, rfl, rfl, ?_⟩
  intro r env
  rfl

end RdSpeTool
