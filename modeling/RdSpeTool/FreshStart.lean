import RdSpeTool.AccessShift
import RdSpeTool.Reservoir

/-!
# After a reset a thread is a freshly registered thread

A continuation of windows and hits, given to a thread that was just reset and, with its counter
readings shifted by a constant, to a newly registered thread with the same parameters, leaves the
two threads equal up to that shift.
-/

namespace RdSpeTool

open ProbeTable

def shift (K : ℤ) (a : U64) : U64 := BitVec.ofInt 64 (a.toNat + K)

def NoWrap (K : ℤ) (a : U64) : Prop := 0 ≤ (a.toNat : ℤ) + K ∧ (a.toNat : ℤ) + K < 2 ^ 64

theorem shift_toNat {K : ℤ} {a : U64} (h : NoWrap K a) :
    ((shift K a).toNat : ℤ) = a.toNat + K := by
  unfold shift
  rw [BitVec.toNat_ofInt, Int.emod_eq_of_lt h.1 (by exact_mod_cast h.2)]
  exact Int.toNat_of_nonneg h.1

theorem reuseDelta_shift {K : ℤ} {a b : U64} (ha : NoWrap K a) (hb : NoWrap K b) :
    reuseDelta (shift K a) (shift K b) = reuseDelta a b := by
  have ha' := shift_toNat ha
  have hb' := shift_toNat hb
  apply BitVec.eq_of_toNat_eq
  rw [reuseDelta_toNat, reuseDelta_toNat]
  omega

/-- Every armed seed carries a reading that satisfies `ok`. -/
def SeedsOk (ok : U64 → Prop) (th : Thread) : Prop :=
  ∀ s ∈ th.slots, s.state = .armed → ok s.seedAccess

theorem seedsOk_hit {c : SessionCtl} {th : Thread} (hm : th.meter.Sized c.meterCtl)
    {ok : U64 → Prop} (h : SeedsOk ok th) {ht : Hit} (hok : ∀ a ∈ ht.reading, ok a) :
    SeedsOk ok (th.hit c ht) := by
  intro s hs harmed
  rcases hit_armed_slot hm hs harmed with ⟨s', hs', harmed', hseed⟩ |
    ⟨t, regs, env, r, target, a, rfl, hadm, hacc, -, -⟩
  · have hacc : s.seedAccess = s'.seedAccess := congrArg Seed.seedAccess hseed
    rw [hacc]
    exact h s' hs' harmed'
  · rw [hacc]
    exact hok a (Meter.read_eq_some hadm.read_eq)

theorem mapAccess_hit {φ : U64 → U64} {ok : U64 → Prop}
    (hφ : ∀ a b, ok a → ok b → reuseDelta (φ a) (φ b) = reuseDelta a b) (c : SessionCtl)
    {th : Thread} (h : SeedsOk ok th) {ht : Hit} (hok : ∀ a ∈ ht.reading, ok a) :
    (th.mapAccess φ).hit c (ht.mapAccess φ) = (th.hit c ht).mapAccess φ := by
  cases ht with
  | bp t regs env => exact mapAccess_rdHandleBpHit φ c th t regs env
  | wp i regs env =>
      refine mapAccess_rdHandleWpHit φ c th i regs env ?_
      intro s hs harmed a ha
      exact hφ _ _ (h s hs harmed) (hok a ha)

theorem mapAccess_window (φ : U64 → U64) (b : Bool) (th : Thread) :
    (th.mapAccess φ).window b = (th.window b).mapAccess φ := by
  have hslots : ∀ s : Slot, ({ s.mapAccess φ with
      wpEvent := (s.mapAccess φ).wpEvent.setEnabled b } : Slot) =
      ({ s with wpEvent := s.wpEvent.setEnabled b } : Slot).mapAccess φ := by
    intro s
    simp only [Slot.mapAccess, Slot.mapCell, Cell.mapAccess]
    split_ifs <;> rfl
  unfold Thread.window
  dsimp only
  split_ifs
  · simp only [Thread.setEvents, List.map_map]
    congr 1
    refine Eq.trans (List.map_congr_left ?_) (List.map_map ..).symm
    intro s _
    exact hslots s
  · rfl

/-- A newly registered thread holds no reading. -/
theorem mapAccess_newThread (φ : U64 → U64) (c : SessionCtl) (arg : ThreadRegister) :
    (newThread c arg).mapAccess φ = newThread c arg := by
  have hslots : ∀ s ∈ (newThread c arg).slots, s.mapAccess φ = s := by
    rw [newThread_eq]
    intro s hs
    obtain ⟨s', hs', rfl⟩ := List.mem_map.mp hs
    obtain ⟨i, -, rfl⟩ := List.mem_map.mp hs'
    rfl
  have hevents : (newThread c arg).dwarfEvents.map (List.map (DwarfEvent.mapAccess φ)) =
      (newThread c arg).dwarfEvents := by
    rw [newThread_eq]
    simp only [Thread.setEvents, setupThread]
    split_ifs
    · simp only [Option.map_some, List.map_replicate]
      rfl
    · rfl
  have hid : (newThread c arg).slots.map (Slot.mapAccess φ) = (newThread c arg).slots :=
    (List.map_congr_left hslots).trans (List.map_id' _)
  simp only [Thread.mapAccess, hevents, hid]

/-! ## Two sessions side by side -/

inductive Continuation
  | window (b : Bool)
  | hit (k : ℕ) (h : Hit)

namespace Continuation

def toEvent : Continuation → SessionEvent
  | window true => .ioctl .startWindow
  | window false => .ioctl .stopWindow
  | hit k h => .hit k h

/-- The continuation as thread `k` sees it, for a session in which that thread is the only one,
with its readings mapped. -/
def seenBy (k : ℕ) (φ : U64 → U64) : Continuation → Option Continuation
  | window b => some (window b)
  | hit j h => if j = k then some (hit 0 (h.mapAccess φ)) else none

end Continuation

def Session.resume (s : Session) (es : List Continuation) : Session :=
  s.run (es.map Continuation.toEvent)

/-- Thread `k` of `s` and the only thread of `f`, equal up to the map of readings. -/
structure Shadows (φ : U64 → U64) (ok : U64 → Prop) (k : ℕ) (s f : Session) (th : Thread) :
    Prop where
  ctl : f.toSessionCtl = s.toSessionCtl
  ready : s.toSessionCtl.Ready
  original : s.threads[k]? = some th
  image : f.threads[0]? = some (th.mapAccess φ)
  shaped : Shaped s.toSessionCtl th
  active : th.active = true
  seeds : SeedsOk ok th

theorem step_window (s : Session) (b : Bool) :
    s.step (Continuation.window b).toEvent = s.setWindow b := by
  cases b <;> rfl

namespace Shadows

variable {φ : U64 → U64} {ok : U64 → Prop} {k : ℕ} {s f : Session} {th : Thread}

theorem window (h : Shadows φ ok k s f th) (b : Bool) :
    Shadows φ ok k (s.setWindow b) (f.setWindow b) (th.window b) := by
  have hstep : ThreadStep s.toSessionCtl th (s.toSessionCtl.withRunning b) (th.window b) :=
    .window b
  refine ⟨?_, ?_, ?_, ?_, h.shaped.step h.ready hstep, ?_, ?_⟩
  · exact congrArg (fun c : SessionCtl => c.withRunning b) h.ctl
  · exact ⟨h.ready.configured, h.ready.targetsLoaded, h.ready.wpCapacity_pos, h.ready.targets_ne,
      h.ready.dwarfEventCapacity_pos⟩
  · exact (List.getElem?_map ..).trans (congrArg (Option.map _) h.original)
  · rw [← mapAccess_window]
    exact (List.getElem?_map ..).trans (congrArg (Option.map _) h.image)
  · unfold Thread.window
    split_ifs <;> exact h.active
  · unfold Thread.window
    split_ifs
    · intro s' hs' harmed
      obtain ⟨s'', hs'', rfl⟩ := List.mem_map.mp hs'
      exact h.seeds s'' hs'' harmed
    · exact h.seeds

theorem hit (hφ : ∀ a b, ok a → ok b → reuseDelta (φ a) (φ b) = reuseDelta a b)
    (h : Shadows φ ok k s f th) {ht : Hit} (hok : ∀ a ∈ ht.reading, ok a) :
    Shadows φ ok k (s.step (.hit k ht)) (f.step (.hit 0 (ht.mapAccess φ)))
      (th.hit s.toSessionCtl ht) := by
  have hstep : ThreadStep s.toSessionCtl th s.toSessionCtl (th.hit s.toSessionCtl ht) :=
    .hit ht h.active
  refine ⟨h.ctl, h.ready, ?_, ?_, h.shaped.step h.ready hstep, ?_, ?_⟩
  · change (s.threads.modify k _)[k]? = _
    rw [List.getElem?_modify_eq, h.original]
    rfl
  · change (f.threads.modify 0 _)[0]? = _
    rw [List.getElem?_modify_eq, h.image, ← mapAccess_hit hφ s.toSessionCtl h.seeds hok, h.ctl]
    rfl
  · exact (congrArg Frame.active (frame_hit s.toSessionCtl th ht)).trans h.active
  · exact seedsOk_hit (h.shaped.sized h.ready h.active) h.seeds hok

theorem hit_other (h : Shadows φ ok k s f th) {j : ℕ} (hj : j ≠ k) (ht : Hit) :
    Shadows φ ok k (s.step (.hit j ht)) f th := by
  refine ⟨h.ctl, h.ready, ?_, h.image, h.shaped, h.active, h.seeds⟩
  change (s.threads.modify j _)[k]? = _
  rw [List.getElem?_modify_ne _ _ hj]
  exact h.original

theorem resume (hφ : ∀ a b, ok a → ok b → reuseDelta (φ a) (φ b) = reuseDelta a b)
    (h : Shadows φ ok k s f th) (es : List Continuation)
    (hes : ∀ ht, Continuation.hit k ht ∈ es → ∀ a ∈ ht.reading, ok a) :
    ∃ out, Shadows φ ok k (s.resume es) (f.resume (es.filterMap (Continuation.seenBy k φ))) out := by
  induction es generalizing s f th with
  | nil => exact ⟨th, h⟩
  | cons e es ih =>
      have htail : ∀ ht, Continuation.hit k ht ∈ es → ∀ a ∈ ht.reading, ok a :=
        fun ht hmem => hes ht (List.mem_cons_of_mem e hmem)
      cases e with
      | window b =>
          obtain ⟨out, hout⟩ := ih (h.window b) htail
          refine ⟨out, ?_⟩
          rw [← step_window, ← step_window] at hout
          exact hout
      | hit j ht =>
          by_cases hj : j = k
          · subst hj
            obtain ⟨out, hout⟩ := ih (h.hit hφ (hes ht List.mem_cons_self)) htail
            refine ⟨out, ?_⟩
            have hseen : (Continuation.hit j ht :: es).filterMap (Continuation.seenBy j φ) =
                .hit 0 (ht.mapAccess φ) :: es.filterMap (Continuation.seenBy j φ) := by
              simp [Continuation.seenBy]
            rw [hseen]
            exact hout
          · obtain ⟨out, hout⟩ := ih (h.hit_other hj ht) htail
            refine ⟨out, ?_⟩
            have hseen : (Continuation.hit j ht :: es).filterMap (Continuation.seenBy k φ) =
                es.filterMap (Continuation.seenBy k φ) := by
              simp [Continuation.seenBy, hj]
            rw [hseen]
            exact hout

end Shadows

def freshSession (c : SessionCtl) (arg : ThreadRegister) : Session :=
  { c with threads := [newThread c arg] }

/-- Reset equals fresh registration: after any history, a reset whose moves succeed, and any
continuation, a live thread is the freshly registered thread that saw the same continuation, up
to the shift of counter readings. -/
theorem reset_equals_fresh_registration (s : Session) (hs : s.Reachable) (hr : s.running = false)
    (mods : ℕ → ℕ → ℤ) (hmods : ∀ k i, mods k i = 0) (k : ℕ) (th : Thread)
    (hth : s.threads[k]? = some th) (ha : th.active = true) (es : List Continuation) (K : ℤ)
    (hes : ∀ ht, Continuation.hit k ht ∈ es → ∀ a ∈ ht.reading, NoWrap K a) :
    ∃ out, ((s.step (.ioctl (.resetSession mods))).resume es).threads[k]? = some out ∧
      ((freshSession s.toSessionCtl ⟨th.tid, th.cpu, th.scratchBase, th.scratchStride⟩).resume
        (es.filterMap (Continuation.seenBy k (shift K)))).threads[0]? =
          some (out.mapAccess (shift K)) := by
  have hmem := List.mem_of_getElem? hth
  have hshaped := hs.shaped hmem
  have hreset := reset_eq_newThread hshaped ha hr (hmods k)
  have hstep : s.step (.ioctl (.resetSession mods)) =
      { s with threads := (resetThreads s.toSessionCtl mods 0 s.threads).2 } := by
    change (rdResetSessionLocked s mods).2 = _
    unfold rdResetSessionLocked
    rw [if_neg (by simp [hr])]
  have hstart : Shadows (shift K) (NoWrap K) k (s.step (.ioctl (.resetSession mods)))
      (freshSession s.toSessionCtl ⟨th.tid, th.cpu, th.scratchBase, th.scratchStride⟩)
      (newThread s.toSessionCtl ⟨th.tid, th.cpu, th.scratchBase, th.scratchStride⟩) := by
    rw [hstep]
    refine ⟨rfl, hs.ready hmem, ?_, ?_, Shaped.newThread _ _, ?_, ?_⟩
    · change (resetThreads s.toSessionCtl mods 0 s.threads).2[k]? = _
      rw [getElem?_resetThreads, hth, Nat.zero_add, Option.map_some, hreset]
    · rw [mapAccess_newThread]
      rfl
    · rw [newThread_eq]
      rfl
    · rw [newThread_eq]
      intro s' hs' harmed
      obtain ⟨s'', hs'', rfl⟩ := List.mem_map.mp hs'
      obtain ⟨i, -, rfl⟩ := List.mem_map.mp hs''
      cases harmed
  obtain ⟨out, hout⟩ := hstart.resume (fun _ _ => reuseDelta_shift) es hes
  exact ⟨out, hout.original, hout.image⟩

theorem reset_equals_fresh_registration_armed :
    ∃ out, (((armedSession.step (.ioctl .stopWindow)).step
        (.ioctl (.resetSession fun _ _ => 0))).resume
          [.window true, .hit 0 (.bp 0 (some smallRegs) (smallHitEnv 40))]).threads[0]? = some out := by
  obtain ⟨out, hout, -⟩ := reset_equals_fresh_registration
    (armedSession.step (.ioctl .stopWindow)) ⟨1, armedRun ++ [.ioctl .stopWindow], rfl⟩ rfl
    (fun _ _ => 0) (fun _ _ => rfl) 0 (armedThread.window false) rfl rfl
    [.window true, .hit 0 (.bp 0 (some smallRegs) (smallHitEnv 40))] (-40) (by
      intro ht hmem a ha
      simp only [List.mem_cons, Continuation.hit.injEq, reduceCtorEq, List.not_mem_nil, or_false,
        false_or, true_and] at hmem
      subst hmem
      obtain rfl : (40 : U64) = a := Option.some.inj ha
      exact ⟨by decide, by decide⟩)
  exact ⟨out, hout⟩

end RdSpeTool
