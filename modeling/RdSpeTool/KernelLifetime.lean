import RdSpeTool.HitRouting

/-!
# What the module holds over its lifetime

Every reference, event and allocation of the module belongs to a context or to the targets of an
open file. A file that is closed gives back all of its own, so that nothing is left when the last
one is closed, and nothing is ever given back twice.
-/

namespace RdSpeTool

open Schedule ResourceLog

def KernelSession.holdings (ks : KernelSession) : Multiset KernelResource :=
  (ks.ctxs.map fun c => (↑c.resources : Multiset KernelResource)).sum +
    ↑(ks.targetsMem.map KernelResource.memory).toList

def KernelSession.closeLog (ks : KernelSession) : List (Entry KernelResource) :=
  (ks.ctxs.flatMap ThreadCtx.closeResources ++
    (ks.targetsMem.map KernelResource.memory).toList).map .release

def KernelStep.log (K : Kernel) : KernelStep → List (Entry KernelResource)
  | .ioctl fd copyOk cmd => (K.ioctl fd copyOk cmd).2.2
  | .release fd => ((K.sessions fd).map KernelSession.closeLog).getD []
  | _ => []

/-- The open files own what the module holds; only loaded targets have memory. -/
structure Kernel.Accounted (K : Kernel) : Prop where
  owned : OwnedBy K.sessions KernelSession.holdings K.held
  targetsMem : ∀ fd ks, K.sessions fd = some ks → ks.targetsMem ≠ none →
    ks.session.targetsLoaded = true

/-- What a step gives back was held or taken in this step, and it settles the books. -/
structure KernelStep.Settles (K K' : Kernel) (st : KernelStep) : Prop where
  released : ↑(released (st.log K)) ≤ K.held + (↑(acquired (st.log K)) : Multiset KernelResource)
  held : K'.held = settle K.held (st.log K)

/-! ## One thread -/

namespace ThreadCtx

variable {c : ThreadCtx}

theorem resources_freeLive (c : ThreadCtx) : c.freeLive.resources =
    (ThreadArray.results.filterMap c.arrays).map .memory ++ [.memory c.self] := by
  have hlive : ThreadArray.live.filterMap (fun a => if a ∈ ThreadArray.live then none
      else c.arrays a) = [] := by
    rw [List.filterMap_eq_nil_iff]
    exact fun a ha => if_pos ha
  have hresults : ThreadArray.results.filterMap (fun a => if a ∈ ThreadArray.live then none
      else c.arrays a) = ThreadArray.results.filterMap c.arrays := by
    apply List.filterMap_congr
    intro a ha
    have hdisjoint : ∀ a ∈ ThreadArray.results, a ∉ ThreadArray.live := by decide
    exact if_neg (hdisjoint a ha)
  unfold resources liveResources freeLive
  dsimp only
  rw [hlive, hresults]
  simp

/-- A detached thread keeps its results until it is destroyed. -/
theorem detach_resources (c : ThreadCtx) :
    (↑c.detachResources : Multiset KernelResource) + ↑c.detach.resources = ↑c.resources := by
  unfold detachResources detach
  by_cases hdetached : c.liveDetached = true
  · rw [if_pos hdetached, if_pos hdetached]
    exact zero_add _
  · rw [if_neg hdetached, if_neg hdetached, resources_freeLive, Multiset.coe_add, resources,
      List.append_assoc]

theorem closeResources_eq (c : ThreadCtx) :
    (↑c.closeResources : Multiset KernelResource) = ↑c.resources := by
  unfold closeResources
  split_ifs
  · rw [← Multiset.coe_add, detach_resources]
  · rfl

end ThreadCtx

/-- A sum over a list in which one element was changed. -/
theorem sum_modify {α M : Type*} [AddCommMonoid M] (f : α → M) (g : α → α) (l : List α)
    (k : ℕ) :
    ((l.modify k g).map f).sum + (l[k]?).elim 0 f =
      (l.map f).sum + (l[k]?).elim 0 fun x => f (g x) := by
  induction l generalizing k with
  | nil => simp
  | cons x l ih =>
      cases k with
      | zero =>
          simp only [List.modify_zero_cons, List.map_cons, List.sum_cons, List.getElem?_cons_zero,
            Option.elim_some]
          abel
      | succ k =>
          have hrest := ih k
          simp only [List.modify_succ_cons, List.map_cons, List.sum_cons, List.getElem?_cons_succ]
          rw [add_assoc, hrest, add_assoc]

/-! ## One session -/

namespace KernelSession

variable {ks : KernelSession} {live : List (ℕ × ℕ)} {fd : ℕ}

theorem released_closeLog (ks : KernelSession) :
    (↑(released ks.closeLog) : Multiset KernelResource) = ks.holdings ∧
      acquired ks.closeLog = [] := by
  unfold closeLog holdings
  rw [released_map_release, acquired_map_release, ← Multiset.coe_add]
  refine ⟨congrArg (· + _) ?_, rfl⟩
  induction ks.ctxs with
  | nil => rfl
  | cons c ctxs ih =>
      rw [List.flatMap_cons, ← Multiset.coe_add, ih, ThreadCtx.closeResources_eq, List.map_cons,
        List.sum_cons]

/-- The log of an operation is the change of what its session holds. -/
def Balanced (ks : KernelSession) (o : ControlOutcome) : Prop :=
  ks.holdings + ↑(acquired o.log) = o.session.holdings + ↑(released o.log)

theorem balanced_unchanged (live : List (ℕ × ℕ)) {ret : ℤ} {log : List (Entry KernelResource)}
    (h : (acquired log).Perm (released log)) : ks.Balanced (ks.unchanged live ret log) := by
  have hidle : (ks.unchanged live ret log).Idle ks live := idle_unchanged h
  unfold Balanced
  rw [hidle.session, Multiset.coe_eq_coe.mpr hidle.balanced]

theorem balanced_registerThread (fd : ℕ) (arg : ThreadRegister) (ans : RegisterAnswers) :
    ks.Balanced (ks.registerThread live fd arg ans) := by
  have hbalanced := registerCtx_balanced ks.session arg ans
  rcases hreg : registerCtx ks.session arg ans with ⟨ret, _ | th, log⟩
  · rw [hreg] at hbalanced
    have hsame : ks.registerThread live fd arg ans = ks.unchanged live ret log := by
      unfold registerThread
      rw [hreg]
    rw [hsame]
    exact balanced_unchanged live (hbalanced rfl)
  · have hholds := (registerCtx_some hreg).2.1
    unfold registerThread Balanced
    rw [hreg]
    dsimp only
    rw [Multiset.coe_eq_coe.mpr hholds, ← Multiset.coe_add]
    simp only [holdings, List.map_append, List.sum_append, List.map_cons, List.map_nil,
      List.sum_cons, List.sum_nil, add_zero]
    abel

theorem balanced_unregisterThread (fd : ℕ) (tid : ℤ) :
    ks.Balanced (ks.unregisterThread live fd tid) := by
  unfold unregisterThread
  cases rdFindActiveThreadByTid ks.session tid with
  | none => exact balanced_unchanged live (List.Perm.refl _)
  | some k =>
      have hsum := sum_modify (fun c => (↑c.resources : Multiset KernelResource))
        ThreadCtx.detach ks.ctxs k
      unfold Balanced detachThread
      rw [acquired_map_release, released_map_release]
      simp only [holdings]
      cases hk : ks.ctxs[k]? with
      | none =>
          rw [hk] at hsum
          simp only [Option.elim_none, add_zero] at hsum
          rw [hsum]
          rfl
      | some c =>
          rw [hk] at hsum
          simp only [Option.elim_some] at hsum
          rw [← ThreadCtx.detach_resources c, ← add_assoc] at hsum
          have hctxs := add_right_cancel hsum
          rw [← hctxs]
          simp only [Option.map_some, Option.getD_some, Multiset.coe_nil, add_zero]
          abel

/-- Targets get their memory once: a session that has loaded them refuses the next table. -/
theorem balanced_loadTargets (live : List (ℕ × ℕ))
    (hmem : ks.targetsMem ≠ none → ks.session.targetsLoaded = true) (hasPtr : Bool)
    (targets : List Target) (memdup : Except Errno ℕ) (alloc : Option ℕ) :
    ks.Balanced (ks.loadTargets live hasPtr targets memdup alloc) ∧
      ((ks.loadTargets live hasPtr targets memdup alloc).session = ks ∨
        (ks.loadTargets live hasPtr targets memdup alloc).session.session.targetsLoaded =
          true) := by
  unfold loadTargets
  by_cases hbusy : ks.session.configured = false ∨ ks.session.targetsLoaded = true
  · rw [if_pos hbusy]
    exact ⟨balanced_unchanged live (List.Perm.refl _), .inl rfl⟩
  rw [if_neg hbusy]
  split_ifs
  · exact ⟨balanced_unchanged live (List.Perm.refl _), .inl rfl⟩
  cases memdup with
  | error e => exact ⟨balanced_unchanged live (List.Perm.refl _), .inl rfl⟩
  | ok user =>
      cases alloc with
      | none => exact ⟨balanced_unchanged live (List.Perm.refl _), .inl rfl⟩
      | some mem =>
          dsimp only
          cases copyTargets targets with
          | none =>
              exact ⟨balanced_unchanged live (List.Perm.swap _ _ _), .inl rfl⟩
          | some copy =>
              refine ⟨?_, .inr rfl⟩
              have hnone : ks.targetsMem = none := by
                by_contra hne
                exact hbusy (.inr (hmem hne))
              unfold Balanced holdings
              dsimp only
              have hswap : [KernelResource.memory user, .memory mem].Perm
                  [.memory mem, .memory user] := List.Perm.swap _ _ _
              rw [hnone, add_assoc, add_assoc]
              exact congrArg _ (Multiset.coe_eq_coe.mpr hswap)

theorem balanced_ioctl (hmem : ks.targetsMem ≠ none → ks.session.targetsLoaded = true)
    (fd : ℕ) (copyOk : Bool) (cmd : ControlIoctl) :
    ks.Balanced (ks.ioctl live fd copyOk cmd) := by
  have hfault : ks.Balanced (ks.unchanged live (-efault) []) :=
    balanced_unchanged live (List.Perm.refl _)
  cases cmd with
  | configSession cfg =>
      unfold ioctl
      split_ifs
      · exact hfault
      · rfl
  | loadTargets hasPtr targets memdup alloc =>
      unfold ioctl
      split_ifs
      · exact hfault
      · exact (balanced_loadTargets live hmem hasPtr targets memdup alloc).1
  | registerThread arg ans =>
      unfold ioctl
      split_ifs
      · exact hfault
      · exact balanced_registerThread fd arg ans
  | unregisterThread tid =>
      unfold ioctl
      split_ifs
      · exact hfault
      · exact balanced_unregisterThread fd tid
  | startWindow => rfl
  | stopWindow => rfl
  | resetSession mods => rfl

/-- The memory of the targets comes with the targets. -/
theorem targetsLoaded_ioctl (hmem : ks.targetsMem ≠ none → ks.session.targetsLoaded = true)
    (fd : ℕ) (copyOk : Bool) (cmd : ControlIoctl)
    (h : (ks.ioctl live fd copyOk cmd).session.targetsMem ≠ none) :
    (ks.ioctl live fd copyOk cmd).session.session.targetsLoaded = true := by
  have hkeep : ∀ o : ControlOutcome, o.session.targetsMem = ks.targetsMem →
      (∃ e, o.session.session = ks.session.step e) → o.session.targetsMem ≠ none →
      o.session.session.targetsLoaded = true := by
    rintro o htargets ⟨e, hsession⟩ hne
    rw [htargets] at hne
    obtain ⟨b, hb⟩ := Session.step_params (hmem hne) e
    rw [hsession]
    exact (congrArg SessionCtl.targetsLoaded hb).trans (hmem hne)
  have hsame : ∀ {o : ControlOutcome}, o.session = ks → o.session.targetsMem ≠ none →
      o.session.session.targetsLoaded = true := by
    rintro o ho hne
    rw [ho] at hne ⊢
    exact hmem hne
  revert h
  cases cmd with
  | configSession cfg =>
      unfold ioctl
      split_ifs
      · exact hsame rfl
      · exact hkeep _ rfl ⟨.ioctl (.configSession cfg), rfl⟩
  | loadTargets hasPtr targets memdup alloc =>
      unfold ioctl
      split_ifs
      · exact hsame rfl
      · rcases (balanced_loadTargets live hmem hasPtr targets memdup alloc).2 with ho | ho
        · exact hsame ho
        · exact fun _ => ho
  | registerThread arg ans =>
      unfold ioctl
      split_ifs
      · exact hsame rfl
      · have htargets : (ks.registerThread live fd arg ans).session.targetsMem = ks.targetsMem := by
          unfold registerThread
          rcases registerCtx ks.session arg ans with ⟨ret, _ | th, log⟩ <;> rfl
        exact hkeep _ htargets ⟨.ioctl (.registerThread arg (ans.env ks.session.toSessionCtl)),
          congrArg Prod.snd (registerThread_refines fd arg ans)⟩
  | unregisterThread tid =>
      unfold ioctl
      split_ifs
      · exact hsame rfl
      · have htargets : (ks.unregisterThread live fd tid).session.targetsMem = ks.targetsMem := by
          unfold unregisterThread
          cases rdFindActiveThreadByTid ks.session tid <;> rfl
        exact hkeep _ htargets ⟨.ioctl (.unregisterThread tid),
          congrArg Prod.snd (@ioctl_refines ks live fd (.unregisterThread tid))⟩
  | startWindow => exact hkeep _ rfl ⟨.ioctl .startWindow, rfl⟩
  | stopWindow => exact hkeep _ rfl ⟨.ioctl .stopWindow, rfl⟩
  | resetSession mods => exact hkeep _ rfl ⟨.ioctl (.resetSession mods), rfl⟩

end KernelSession

/-! ## Runs -/

namespace Kernel

variable {K K' : Kernel} {fd : ℕ} {ks : KernelSession}

theorem accounted_initial : initial.Accounted := ⟨OwnedBy.empty, fun fd ks h => by cases h⟩

/-- A session is replaced by one that holds what the log says. -/
theorem Accounted.update (h : K.Accounted) (fd : ℕ) (new : Option KernelSession)
    (live : List (ℕ × ℕ)) (log : List (Entry KernelResource))
    (hlog : (K.sessions fd).elim 0 KernelSession.holdings + ↑(acquired log) =
      new.elim 0 KernelSession.holdings + ↑(released log))
    (hmem : ∀ ks, new = some ks → ks.targetsMem ≠ none → ks.session.targetsLoaded = true) :
    (⟨Function.update K.sessions fd new, live, settle K.held log⟩ : Kernel).Accounted ∧
      ↑(released log) ≤ K.held + (↑(acquired log) : Multiset KernelResource) := by
  obtain ⟨rest, hheld, hnew⟩ := h.owned.split fd
  obtain ⟨hsettle, hle⟩ := settle_owner rest hlog
  rw [hheld]
  refine ⟨⟨?_, ?_⟩, hle⟩
  · dsimp only
    rw [hsettle]
    exact hnew new
  · intro fd' ks' hks'
    by_cases hfd : fd' = fd
    · subst hfd
      exact hmem ks' (by simpa using hks')
    · exact h.targetsMem fd' ks' (by simpa [hfd] using hks')

/-- A step that takes and gives back nothing, and keeps the holdings of every session. -/
theorem Accounted.handle (h : K.Accounted) (p : ℕ × ℕ) (ht : Hit) : (K.handle p ht).Accounted := by
  have hheld : settle K.held ([] : List (Entry KernelResource)) = K.held :=
    settle_of_perm K.held (List.Perm.refl _)
  have hupdate := h.update p.1 ((K.sessions p.1).map fun ks =>
    { ks with session := ks.session.step (.hit p.2 ht) }) K.live [] ?_ ?_
  · rw [hheld] at hupdate
    exact hupdate.1
  · cases K.sessions p.1 <;> rfl
  · intro ks hks hmem
    obtain ⟨ks', hks', rfl⟩ := Option.map_eq_some_iff.mp hks
    exact h.targetsMem p.1 ks' hks' hmem

theorem Accounted.of_handler (h : K.Accounted) {st : KernelStep} (hlog : st.log K = [])
    (hK' : K' = K ∨ ∃ p ht, K' = K.handle p ht) : K'.Accounted ∧ st.Settles K K' := by
  have hheld : K'.held = K.held := by
    rcases hK' with rfl | ⟨p, ht, rfl⟩ <;> rfl
  refine ⟨?_, ?_, ?_⟩
  · rcases hK' with rfl | ⟨p, ht, rfl⟩
    · exact h
    · exact h.handle p ht
  · rw [hlog]
    exact Multiset.zero_le _
  · rw [hlog, hheld]
    exact (settle_of_perm K.held (List.Perm.refl _)).symm

theorem accounted_step {st : KernelStep} (h : K.Accounted) (hstep : K.step st = some K') :
    K'.Accounted ∧ st.Settles K K' := by
  cases st with
  | openFile fd tgid =>
      dsimp only [step] at hstep
      cases hfd : K.sessions fd with
      | some ks =>
          rw [hfd] at hstep
          cases hstep
      | none =>
          rw [hfd] at hstep
          cases hstep
          have hupdate := h.update fd (some ⟨rdWpctlOpen tgid, [], none⟩) K.live []
            (by rw [hfd]; rfl) ?_
          · have hheld : settle K.held ([] : List (Entry KernelResource)) = K.held :=
              settle_of_perm K.held (List.Perm.refl _)
            rw [hheld] at hupdate
            exact ⟨hupdate.1, Multiset.zero_le _, hheld.symm⟩
          · rintro ks hks hne
            cases hks
            exact absurd rfl hne
  | ioctl fd copyOk cmd =>
      dsimp only [step] at hstep
      cases hfd : K.sessions fd with
      | none =>
          rw [hfd] at hstep
          cases hstep
      | some ks =>
          rw [hfd] at hstep
          dsimp only at hstep
          split_ifs at hstep
          cases hstep
          have hmem := h.targetsMem fd ks hfd
          have hupdate := h.update fd (some (ks.ioctl K.live fd copyOk cmd).session)
            (ks.ioctl K.live fd copyOk cmd).live (ks.ioctl K.live fd copyOk cmd).log
            (by rw [hfd]; exact KernelSession.balanced_ioctl hmem fd copyOk cmd) ?_
          · have hioctl : K.ioctl fd copyOk cmd = ((ks.ioctl K.live fd copyOk cmd).ret,
                K.put fd (ks.ioctl K.live fd copyOk cmd), (ks.ioctl K.live fd copyOk cmd).log) := by
              unfold Kernel.ioctl
              rw [hfd]
            have hlog : (KernelStep.ioctl fd copyOk cmd).log K =
                (ks.ioctl K.live fd copyOk cmd).log := congrArg (fun r => r.2.2) hioctl
            rw [hioctl]
            refine ⟨hupdate.1, ?_, ?_⟩
            · rw [hlog]
              exact hupdate.2
            · rw [hlog]
              rfl
          · rintro ks' hks' hne
            cases hks'
            exact KernelSession.targetsLoaded_ioctl hmem fd copyOk cmd hne
  | release fd =>
      obtain ⟨ks, hfd, rfl⟩ := Option.map_eq_some_iff.mp hstep
      have hclose := ks.released_closeLog
      have hlog : (KernelStep.release fd).log K = ks.closeLog := by
        change ((K.sessions fd).map KernelSession.closeLog).getD [] = ks.closeLog
        rw [hfd]
        rfl
      have hupdate := h.update fd none (K.live.filter fun p => p.1 ≠ fd) ks.closeLog ?_
        (fun ks' hks' => by cases hks')
      · refine ⟨hupdate.1, ?_, ?_⟩
        · rw [hlog]
          exact hupdate.2
        · rw [hlog]
          rfl
      · rw [hfd, hclose.1, hclose.2, Option.elim_some, Option.elim_none]
        exact add_comm _ _
  | overflow pid event regs env =>
      cases hstep
      exact h.of_handler rfl (overflow_cases pid event regs env)
  | watchpoint event regs env =>
      cases hstep
      exact h.of_handler rfl (watchpoint_cases event regs env)

theorem accounted_run {steps : List KernelStep} (h : run step initial steps = some K) :
    K.Accounted :=
  run_invariant (fun _ _ _ hm hstep => (accounted_step hm hstep).1) accounted_initial h

end Kernel

open Kernel in
/-- In every state the module reaches it holds what the contexts and targets of its open files own,
the next step gives back nothing that is not held or taken in it, and once every file is closed
nothing is held and no thread is live. -/
theorem module_lifetime (steps : List KernelStep) (K : Kernel)
    (h : run Kernel.step .initial steps = some K) :
    OwnedBy K.sessions KernelSession.holdings K.held ∧
      (∀ st K', K.step st = some K' → st.Settles K K') ∧
      ((∀ fd, K.sessions fd = none) → K.held = 0 ∧ K.live = []) := by
  have hK := accounted_run h
  refine ⟨hK.owned, fun st K' hstep => (accounted_step hK hstep).2, fun hclosed => ⟨?_, ?_⟩⟩
  · exact hK.owned.eq_zero hclosed
  · rw [List.eq_nil_iff_forall_not_mem]
    intro p hp
    obtain ⟨c, hc, -⟩ := ((sound_run h).live p).mp hp
    obtain ⟨ks, hks⟩ := exists_session hc
    rw [hclosed p.1] at hks
    cases hks

theorem module_lifetime_closed :
    (∃ K K', run Kernel.step .initial oneThread = some K ∧ K.step (.release 0) = some K' ∧
      (KernelStep.release 0).Settles K K') ∧
    ∃ K, run Kernel.step .initial [.openFile 0 1, .release 0] = some K ∧ K.held = 0 := by
  refine ⟨⟨_, _, rfl, rfl, (module_lifetime oneThread _ rfl).2.1 _ _ rfl⟩, _, rfl, ?_⟩
  refine ((module_lifetime [.openFile 0 1, .release 0] _ rfl).2.2 fun fd => ?_).1
  by_cases hfd : fd = 0
  · subst hfd
    rfl
  · exact (Function.update_of_ne hfd _ _).trans (Function.update_of_ne hfd _ _)

end RdSpeTool
