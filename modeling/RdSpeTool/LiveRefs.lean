import RdSpeTool.Census
import Mathlib.Data.Set.Basic
import Mathlib.Logic.Relation

/-!
# Live references of a thread

Any number of kprobe handlers look one thread up under RCU, pin its live arrays with `live_refs`
and let go of them, while `rd_thread_detach_live` takes the thread off the list, waits for a grace
period, drops the initial reference, waits for `live_refs_zero` and frees the arrays. Each
constructor is one atomic step of the source and the steps interleave in any order.

RCU is taken as it is documented: a section that was entered before the list removal may still find
the thread, and `synchronize_rcu` returns only after every section open at its start has ended.
-/

namespace RdSpeTool

open Census

/-- The fields of `rd_thread_ctx` that handlers and detach share. `completions` counts the calls of
`complete(&thread->live_refs_zero)`, `freed` says that the live arrays are gone. -/
structure LiveState where
  active : Bool
  liveDetached : Bool
  linked : Bool
  liveRefs : ℕ
  completions : ℕ
  freed : Bool

inductive HandlerPc
  -- no lookup under way
  | outside
  -- inside `rcu_read_lock`, walking `rd_live_threads`; `sees`: this thread was on the list when the
  -- section began
  | scanning (sees : Bool)
  -- the walk is at this thread, before the read of `active`
  | reached
  -- before the read of the event array
  | readEvents
  -- comparing the events of the thread
  | matching
  -- `rd_thread_live_get_rcu`: first read of `active`
  | checkActive
  -- first read of `live_detached`
  | checkDetached
  -- before `refcount_inc_not_zero`
  | getting
  -- second read of `active`
  | recheckActive
  -- second read of `live_detached`
  | recheckDetached
  -- before the `refcount_dec_and_test` of a failed second check
  | undoing
  -- the failed second check dropped the last reference
  | undoCompleting
  -- the lookup succeeded, still inside the section
  | pinned
  -- after the section, in `rd_handle_bp_hit` or `rd_handle_wp_hit`
  | handling
  -- `rd_thread_live_put` dropped the last reference
  | completing

namespace HandlerPc

def inSection : HandlerPc → Bool
  | outside | handling | completing => false
  | _ => true

/-- Inside a section that can still find this thread. -/
def sees : HandlerPc → Bool
  | outside | handling | completing => false
  | scanning b => b
  | _ => true

def atThread : HandlerPc → Bool
  | outside | handling | completing | scanning _ => false
  | _ => true

def refs : HandlerPc → ℕ
  | recheckActive | recheckDetached | undoing | pinned | handling => 1
  | _ => 0

/-- Calls of `complete` the handler is about to make. -/
def completes : HandlerPc → ℕ
  | undoCompleting | completing => 1
  | _ => 0

end HandlerPc

/-- One atomic step of a handler on the shared fields. -/
inductive HandlerStep (l : LiveState) : HandlerPc → LiveState → HandlerPc → Prop
  | lock : HandlerStep l .outside l (.scanning l.linked)
  | reach : HandlerStep l (.scanning true) l .reached
  | unlock (b : Bool) : HandlerStep l (.scanning b) l .outside
  | skipInactive (h : l.active = false) : HandlerStep l .reached l (.scanning true)
  | seeActive (h : l.active = true) : HandlerStep l .reached l .readEvents
  | skipFreed (h : l.freed = true) : HandlerStep l .readEvents l (.scanning true)
  | seeEvents (h : l.freed = false) : HandlerStep l .readEvents l .matching
  | mismatch : HandlerStep l .matching l (.scanning true)
  | found : HandlerStep l .matching l .checkActive
  | inactive (h : l.active = false) : HandlerStep l .checkActive l (.scanning true)
  | isActive (h : l.active = true) : HandlerStep l .checkActive l .checkDetached
  | detached (h : l.liveDetached = true) : HandlerStep l .checkDetached l (.scanning true)
  | attached (h : l.liveDetached = false) : HandlerStep l .checkDetached l .getting
  | incZero (h : l.liveRefs = 0) : HandlerStep l .getting l (.scanning true)
  | inc (h : l.liveRefs ≠ 0) :
      HandlerStep l .getting { l with liveRefs := l.liveRefs + 1 } .recheckActive
  | nowInactive (h : l.active = false) : HandlerStep l .recheckActive l .undoing
  | stillActive (h : l.active = true) : HandlerStep l .recheckActive l .recheckDetached
  | nowDetached (h : l.liveDetached = true) : HandlerStep l .recheckDetached l .undoing
  | stillAttached (h : l.liveDetached = false) : HandlerStep l .recheckDetached l .pinned
  | undo (h : l.liveRefs ≠ 1) :
      HandlerStep l .undoing { l with liveRefs := l.liveRefs - 1 } (.scanning true)
  | undoLast (h : l.liveRefs = 1) :
      HandlerStep l .undoing { l with liveRefs := 0 } .undoCompleting
  | undoComplete : HandlerStep l .undoCompleting { l with completions := l.completions + 1 }
      (.scanning true)
  | leave : HandlerStep l .pinned l .handling
  | put (h : l.liveRefs ≠ 1) :
      HandlerStep l .handling { l with liveRefs := l.liveRefs - 1 } .outside
  | putLast (h : l.liveRefs = 1) : HandlerStep l .handling { l with liveRefs := 0 } .completing
  | complete : HandlerStep l .completing { l with completions := l.completions + 1 } .outside

/-- Progress of `rd_thread_detach_live`, named after the last thing done. -/
inductive DetachPc
  | notStarted
  | activeCleared
  | flagged
  | unlinked
  | inGrace
  | graceEnded
  -- the initial reference was the last one
  | completing
  | waiting
  | waited
  | freed

namespace DetachPc

def active : DetachPc → Bool
  | notStarted => true
  | _ => false

def liveDetached : DetachPc → Bool
  | notStarted | activeCleared => false
  | _ => true

def linked : DetachPc → Bool
  | notStarted | activeCleared | flagged => true
  | _ => false

def graceDone : DetachPc → Bool
  | graceEnded | completing | waiting | waited | freed => true
  | _ => false

def waitDone : DetachPc → Bool
  | waited | freed => true
  | _ => false

def isFreed : DetachPc → Bool
  | freed => true
  | _ => false

def refs : DetachPc → ℕ
  | completing | waiting | waited | freed => 0
  | _ => 1

def completes : DetachPc → ℕ
  | completing => 1
  | _ => 0

end DetachPc

theorem DetachPc.linked_of_graceDone {d : DetachPc} (h : d.graceDone = true) :
    d.linked = false := by
  cases d with
  | notStarted | activeCleared | flagged => cases h
  | _ => rfl

theorem DetachPc.waitDone_of_isFreed {d : DetachPc} (h : d.isFreed = true) :
    d.waitDone = true := by
  cases d with
  | freed => rfl
  | _ => cases h

theorem DetachPc.graceDone_of_waitDone {d : DetachPc} (h : d.waitDone = true) :
    d.graceDone = true := by
  cases d with
  | waited | freed => rfl
  | _ => cases h

/-- The shared fields, detach, every handler, and the sections a grace period still waits for. -/
structure LiveSystem (ι : Type*) where
  live : LiveState
  detach : DetachPc
  pc : ι → HandlerPc
  grace : Set ι

namespace LiveSystem

variable {ι : Type*}

def initial : LiveSystem ι := ⟨⟨true, false, true, 1, 0, false⟩, .notStarted, fun _ => .outside, ∅⟩

inductive DetachStep (s : LiveSystem ι) : LiveSystem ι → Prop
  | clearActive (h : s.detach = .notStarted) (hlive : s.live.liveDetached = false) :
      DetachStep s { s with detach := .activeCleared, live := { s.live with active := false } }
  | flag (h : s.detach = .activeCleared) :
      DetachStep s { s with detach := .flagged, live := { s.live with liveDetached := true } }
  | unlink (h : s.detach = .flagged) :
      DetachStep s { s with detach := .unlinked, live := { s.live with linked := false } }
  | synchronize (h : s.detach = .unlinked) :
      DetachStep s { s with detach := .inGrace, grace := { i | (s.pc i).inSection } }
  | endGrace (h : s.detach = .inGrace) (hempty : s.grace = ∅) :
      DetachStep s { s with detach := .graceEnded }
  | put (h : s.detach = .graceEnded) (hr : s.live.liveRefs ≠ 1) :
      DetachStep s { s with
        detach := .waiting
        live := { s.live with liveRefs := s.live.liveRefs - 1 } }
  | putLast (h : s.detach = .graceEnded) (hr : s.live.liveRefs = 1) :
      DetachStep s { s with detach := .completing, live := { s.live with liveRefs := 0 } }
  | complete (h : s.detach = .completing) :
      DetachStep s { s with
        detach := .waiting
        live := { s.live with completions := s.live.completions + 1 } }
  | endWait (h : s.detach = .waiting) (hdone : 0 < s.live.completions) :
      DetachStep s { s with detach := .waited }
  | free (h : s.detach = .waited) :
      DetachStep s { s with detach := .freed, live := { s.live with freed := true } }

variable [DecidableEq ι]

/-- Handler `i` moves to `p`; leaving its section it no longer holds up the grace period. -/
def move (s : LiveSystem ι) (i : ι) (l : LiveState) (p : HandlerPc) : LiveSystem ι :=
  { s with
      live := l
      pc := Function.update s.pc i p
      grace := { j ∈ s.grace | j = i → p.inSection } }

inductive Step (s : LiveSystem ι) : LiveSystem ι → Prop
  | handler (i : ι) (l : LiveState) (p : HandlerPc) (h : HandlerStep s.live (s.pc i) l p) :
      Step s (s.move i l p)
  | detach (s' : LiveSystem ι) (h : s.DetachStep s') : Step s s'

def Reachable (s : LiveSystem ι) : Prop := Relation.ReflTransGen Step initial s

structure Invariant (s : LiveSystem ι) : Prop where
  active : s.live.active = s.detach.active
  liveDetached : s.live.liveDetached = s.detach.liveDetached
  linked : s.live.linked = s.detach.linked
  freed : s.live.freed = s.detach.isFreed
  refs : ∃ n, Total HandlerPc.refs s.pc n ∧ s.live.liveRefs = s.detach.refs + n
  completes : ∃ n, Total HandlerPc.completes s.pc n ∧
    s.live.completions + s.detach.completes + n = if s.live.liveRefs = 0 then 1 else 0
  awaited : s.detach = .inGrace → ∀ i, (s.pc i).sees = true → i ∈ s.grace
  quiet : s.detach.graceDone = true → ∀ i, (s.pc i).sees = false
  waited : s.detach.waitDone = true → s.live.completions = 1

end LiveSystem

namespace HandlerStep

variable {l l' : LiveState} {p p' : HandlerPc}

/-- Handlers write the reference count and the completion only. -/
theorem flags (h : HandlerStep l p l' p') : l'.active = l.active ∧
    l'.liveDetached = l.liveDetached ∧ l'.linked = l.linked ∧ l'.freed = l.freed := by
  cases h <;> exact ⟨rfl, rfl, rfl, rfl⟩

/-- The count moves with the references the handler holds. -/
theorem refs (h : HandlerStep l p l' p') (hheld : p.refs ≤ l.liveRefs) :
    l'.liveRefs + p.refs = l.liveRefs + p'.refs := by
  cases h with
  | undo | put =>
      change 1 ≤ l.liveRefs at hheld
      change l.liveRefs - 1 + 1 = l.liveRefs + 0
      omega
  | undoLast h | putLast h =>
      change 0 + 1 = l.liveRefs + 0
      omega
  | _ => rfl

/-- The step that drops the last reference owes a `complete`. -/
theorem completes (h : HandlerStep l p l' p') (hheld : p.refs ≤ l.liveRefs) :
    l'.completions + p'.completes + (if l.liveRefs = 0 then 1 else 0) =
      l.completions + p.completes + if l'.liveRefs = 0 then 1 else 0 := by
  cases h with
  | inc h => simp [h, HandlerPc.completes]
  | undo h | put h =>
      change 1 ≤ l.liveRefs at hheld
      have h0 : l.liveRefs ≠ 0 := by omega
      have h1 : l.liveRefs - 1 ≠ 0 := by omega
      simp [h0, h1, HandlerPc.completes]
  | undoLast h | putLast h => simp [h, HandlerPc.completes]
  | undoComplete | complete => simp [HandlerPc.completes]
  | _ => rfl

theorem completions_le (h : HandlerStep l p l' p') : l.completions ≤ l'.completions := by
  cases h <;> simp

/-- A section finds the thread only if the thread was listed at its beginning. -/
theorem sees (h : HandlerStep l p l' p') (hlinked : l.linked = false) (hp' : p'.sees = true) :
    p.sees = true := by
  cases h with
  | lock =>
      rw [hlinked] at hp'
      cases hp'
  | unlock | leave | put | putLast | complete => cases hp'
  | _ => rfl

end HandlerStep

theorem HandlerPc.sees_of_atThread {p : HandlerPc} (h : p.atThread = true) : p.sees = true := by
  cases p with
  | outside | scanning | handling | completing => cases h
  | _ => rfl

theorem HandlerPc.inSection_of_sees {p : HandlerPc} (h : p.sees = true) : p.inSection = true := by
  cases p with
  | outside | handling | completing => cases h
  | _ => rfl

namespace LiveSystem

variable {ι : Type*} {s s' : LiveSystem ι}

theorem initial_invariant : (initial : LiveSystem ι).Invariant where
  active := rfl
  liveDetached := rfl
  linked := rfl
  freed := rfl
  refs := ⟨0, Total.of_zero fun _ => rfl, rfl⟩
  completes := ⟨0, Total.of_zero fun _ => rfl, rfl⟩
  awaited := nofun
  quiet := nofun
  waited := nofun

theorem handler_invariant [DecidableEq ι] (h : s.Invariant) {i : ι} {l : LiveState} {p : HandlerPc}
    (hstep : HandlerStep s.live (s.pc i) l p) : (s.move i l p).Invariant := by
  obtain ⟨n, hn, hrefs⟩ := h.refs
  obtain ⟨m, hm, hcomp⟩ := h.completes
  have hheld : (s.pc i).refs ≤ s.live.liveRefs := by
    have hle := hn.weight_le i
    omega
  have hr := hstep.refs hheld
  have hc := hstep.completes hheld
  obtain ⟨hactive, hdetached, hlinked, hfreed⟩ := hstep.flags
  have hweight := hm.weight_le i
  have hmove : ∀ j, (s.move i l p).pc j = if j = i then p else s.pc j := by
    intro j
    exact Function.update_apply ..
  refine ⟨hactive.trans h.active, hdetached.trans h.liveDetached, hlinked.trans h.linked,
    hfreed.trans h.freed, ⟨n + p.refs - (s.pc i).refs, hn.update i ?_, ?_⟩,
    ⟨m + p.completes - (s.pc i).completes, hm.update i ?_, ?_⟩, ?_, ?_, ?_⟩
  · have hle := hn.weight_le i
    omega
  · have hle := hn.weight_le i
    change l.liveRefs = s.detach.refs + _
    omega
  · omega
  · change l.completions + s.detach.completes + _ = if l.liveRefs = 0 then 1 else 0
    omega
  · intro hgrace j hj
    rw [hmove] at hj
    have hunlinked : s.live.linked = false := by
      rw [h.linked, show s.detach = .inGrace from hgrace]
      rfl
    by_cases hji : j = i
    · subst hji
      rw [if_pos rfl] at hj
      exact ⟨h.awaited hgrace j (hstep.sees hunlinked hj), fun _ => HandlerPc.inSection_of_sees hj⟩
    · rw [if_neg hji] at hj
      exact ⟨h.awaited hgrace j hj, fun he => absurd he hji⟩
  · intro hdone j
    rw [hmove]
    by_cases hji : j = i
    · subst hji
      rw [if_pos rfl]
      have hunlinked : s.live.linked = false := by
        rw [h.linked]
        exact DetachPc.linked_of_graceDone hdone
      have hold := h.quiet hdone j
      by_contra hsees
      rw [hstep.sees hunlinked (by simpa using hsees)] at hold
      cases hold
    · rw [if_neg hji]
      exact h.quiet hdone j
  · intro hdone
    have hone := h.waited hdone
    have hle := hstep.completions_le
    change l.completions = 1
    split_ifs at hc hcomp <;> omega

theorem detach_invariant (h : s.Invariant) (hstep : s.DetachStep s') : s'.Invariant := by
  obtain ⟨n, hn, hrefs⟩ := h.refs
  obtain ⟨m, hm, hcomp⟩ := h.completes
  have hactive := h.active
  have hdetached := h.liveDetached
  have hlinked := h.linked
  have hfreed := h.freed
  cases hstep with
  | clearActive hd _ =>
      rw [hd] at hdetached hlinked hfreed hrefs hcomp
      exact ⟨rfl, hdetached, hlinked, hfreed, ⟨n, hn, hrefs⟩, ⟨m, hm, hcomp⟩, nofun, nofun, nofun⟩
  | flag hd =>
      rw [hd] at hactive hlinked hfreed hrefs hcomp
      exact ⟨hactive, rfl, hlinked, hfreed, ⟨n, hn, hrefs⟩, ⟨m, hm, hcomp⟩, nofun, nofun, nofun⟩
  | unlink hd =>
      rw [hd] at hactive hdetached hfreed hrefs hcomp
      exact ⟨hactive, hdetached, rfl, hfreed, ⟨n, hn, hrefs⟩, ⟨m, hm, hcomp⟩, nofun, nofun, nofun⟩
  | synchronize hd =>
      rw [hd] at hactive hdetached hlinked hfreed hrefs hcomp
      refine ⟨hactive, hdetached, hlinked, hfreed, ⟨n, hn, hrefs⟩, ⟨m, hm, hcomp⟩, ?_, nofun, nofun⟩
      intro _ i hi
      exact HandlerPc.inSection_of_sees hi
  | endGrace hd hempty =>
      rw [hd] at hactive hdetached hlinked hfreed hrefs hcomp
      refine ⟨hactive, hdetached, hlinked, hfreed, ⟨n, hn, hrefs⟩, ⟨m, hm, hcomp⟩, nofun, ?_, nofun⟩
      intro _ i
      by_contra hi
      have hmem := h.awaited hd i (by simpa using hi)
      rw [hempty] at hmem
      exact hmem
  | put hd hr =>
      have hquiet := h.quiet (by rw [hd]; rfl)
      rw [hd] at hactive hdetached hlinked hfreed hrefs hcomp
      change s.live.liveRefs = 1 + n at hrefs
      change s.live.completions + 0 + m = _ at hcomp
      rw [if_neg (by omega)] at hcomp
      refine ⟨hactive, hdetached, hlinked, hfreed, ⟨n, hn, ?_⟩, ⟨m, hm, ?_⟩, nofun,
        fun _ => hquiet, nofun⟩
      · change s.live.liveRefs - 1 = 0 + n
        omega
      · change s.live.completions + 0 + m = if s.live.liveRefs - 1 = 0 then 1 else 0
        rw [if_neg (by omega)]
        omega
  | putLast hd hr =>
      have hquiet := h.quiet (by rw [hd]; rfl)
      rw [hd] at hactive hdetached hlinked hfreed hrefs hcomp
      change s.live.liveRefs = 1 + n at hrefs
      change s.live.completions + 0 + m = _ at hcomp
      rw [if_neg (by omega)] at hcomp
      refine ⟨hactive, hdetached, hlinked, hfreed, ⟨n, hn, ?_⟩, ⟨m, hm, ?_⟩, nofun,
        fun _ => hquiet, nofun⟩
      · change 0 = 0 + n
        omega
      · change s.live.completions + 1 + m = if 0 = 0 then 1 else 0
        rw [if_pos rfl]
        omega
  | complete hd =>
      have hquiet := h.quiet (by rw [hd]; rfl)
      rw [hd] at hactive hdetached hlinked hfreed hrefs hcomp
      refine ⟨hactive, hdetached, hlinked, hfreed, ⟨n, hn, hrefs⟩, ⟨m, hm, ?_⟩, nofun,
        fun _ => hquiet, nofun⟩
      change s.live.completions + 1 + 0 + m = _
      exact hcomp
  | endWait hd hdone =>
      have hquiet := h.quiet (by rw [hd]; rfl)
      rw [hd] at hactive hdetached hlinked hfreed hrefs hcomp
      refine ⟨hactive, hdetached, hlinked, hfreed, ⟨n, hn, hrefs⟩, ⟨m, hm, hcomp⟩, nofun,
        fun _ => hquiet, fun _ => ?_⟩
      change s.live.completions + 0 + m = _ at hcomp
      change s.live.completions = 1
      split_ifs at hcomp <;> omega
  | free hd =>
      have hquiet := h.quiet (by rw [hd]; rfl)
      have hwaited := h.waited (by rw [hd]; rfl)
      rw [hd] at hactive hdetached hlinked hrefs hcomp
      exact ⟨hactive, hdetached, hlinked, rfl, ⟨n, hn, hrefs⟩, ⟨m, hm, hcomp⟩, nofun,
        fun _ => hquiet, fun _ => hwaited⟩

/-- Once the wait is over nobody is at the thread or holds it. -/
theorem Invariant.released (h : s.Invariant) (hdone : s.detach.waitDone = true) (i : ι) :
    (s.pc i).atThread = false ∧ (s.pc i).refs = 0 := by
  have hquiet := h.quiet (DetachPc.graceDone_of_waitDone hdone) i
  have hone := h.waited hdone
  obtain ⟨m, -, hcomp⟩ := h.completes
  obtain ⟨n, hn, hrefs⟩ := h.refs
  -- the one completion was made at zero references
  have hzero : s.live.liveRefs = 0 := by
    by_contra hne
    rw [if_neg hne] at hcomp
    omega
  obtain rfl : n = 0 := by omega
  refine ⟨?_, hn.eq_zero i⟩
  by_contra hat
  rw [HandlerPc.sees_of_atThread (by simpa using hat)] at hquiet
  cases hquiet

variable [DecidableEq ι]

theorem step_invariant (h : s.Invariant) (hstep : s.Step s') : s'.Invariant := by
  cases hstep with
  | handler i l p hstep => exact handler_invariant h hstep
  | detach s' hstep => exact detach_invariant h hstep

theorem Reachable.handler (h : s.Reachable) (i : ι) {l : LiveState} {p : HandlerPc}
    (hstep : HandlerStep s.live (s.pc i) l p) : (s.move i l p).Reachable :=
  h.tail (.handler i l p hstep)

theorem Reachable.detach (h : s.Reachable) (hstep : s.DetachStep s') : s'.Reachable :=
  h.tail (.detach s' hstep)

theorem Reachable.invariant (h : s.Reachable) : s.Invariant := by
  induction h with
  | refl => exact initial_invariant
  | tail _ hstep ih => exact step_invariant ih hstep

theorem waitDone_step (hstep : s.Step s') (h : s.detach.waitDone = true) :
    s'.detach.waitDone = true := by
  cases hstep with
  | handler i l p hstep => exact h
  | detach s' hstep =>
      cases hstep with
      | free hd => rfl
      | clearActive hd _ | endGrace hd _ | put hd _ | putLast hd _ | endWait hd _ =>
          rw [hd] at h
          cases h
      | flag hd | unlink hd | synchronize hd | complete hd =>
          rw [hd] at h
          cases h

theorem waitDone_run (hsteps : Relation.ReflTransGen Step s s') (h : s.detach.waitDone = true) :
    s'.detach.waitDone = true := by
  induction hsteps with
  | refl => exact h
  | tail _ hstep ih => exact waitDone_step hstep ih

end LiveSystem

/-- The live-reference protocol, for any number of handlers and every interleaving with one detach:
the arrays are never freed under a handler that has reached the thread or holds a reference,
`live_refs_zero` is completed at most once and only at zero references, exactly once when the wait
returns, and from then on no step leads to a reference. -/
theorem live_reference_protocol {ι : Type*} [DecidableEq ι] (s : LiveSystem ι)
    (hs : s.Reachable) :
    (s.live.freed = true → ∀ i, (s.pc i).atThread = false ∧ (s.pc i).refs = 0) ∧
      s.live.completions ≤ 1 ∧ (0 < s.live.completions → s.live.liveRefs = 0) ∧
      (s.detach.waitDone = true → s.live.completions = 1) ∧
      (s.detach.waitDone = true → ∀ s', Relation.ReflTransGen LiveSystem.Step s s' →
        ∀ i, (s'.pc i).refs = 0) := by
  have hinv := hs.invariant
  obtain ⟨m, -, hcomp⟩ := hinv.completes
  refine ⟨?_, ?_, ?_, hinv.waited, ?_⟩
  · intro hfreed
    rw [hinv.freed] at hfreed
    exact hinv.released (DetachPc.waitDone_of_isFreed hfreed)
  · split_ifs at hcomp <;> omega
  · intro hpos
    by_contra hne
    rw [if_neg hne] at hcomp
    omega
  · intro hdone s' hsteps i
    have hs' : s'.Reachable := hs.trans hsteps
    exact (hs'.invariant.released (LiveSystem.waitDone_run hsteps hdone) i).2

/-- One handler pins the thread; detach waits for it, and its put completes the wait. -/
theorem exists_reachable_freed : ∃ s : LiveSystem Unit, s.Reachable ∧ s.live.freed = true := by
  have hstart : (LiveSystem.initial : LiveSystem Unit).Reachable := .refl
  have hfound := ((((hstart.handler () .lock).handler () .reach).handler ()
    (.seeActive rfl)).handler () (.seeEvents rfl)).handler () .found
  have hpinned := ((((hfound.handler () (.isActive rfl)).handler () (.attached rfl)).handler ()
    (.inc (by decide))).handler () (.stillActive rfl)).handler () (.stillAttached rfl)
  have hunlinked := (((hpinned.handler () .leave).detach (.clearActive rfl rfl)).detach
    (.flag rfl)).detach (.unlink rfl)
  have hwaiting := ((hunlinked.detach (.synchronize rfl)).detach
    (.endGrace rfl (Set.eq_empty_of_forall_notMem fun _ => Bool.false_ne_true))).detach
    (.put rfl (by decide))
  have hcompleted := (hwaiting.handler () (.putLast rfl)).handler () .complete
  have hfreed := (hcompleted.detach (.endWait rfl (by decide))).detach (.free rfl)
  exact ⟨_, hfreed, rfl⟩

theorem live_reference_protocol_freed : ∃ s : LiveSystem Unit, s.live.freed = true ∧
    s.live.completions ≤ 1 ∧ ∀ i, (s.pc i).atThread = false ∧ (s.pc i).refs = 0 := by
  obtain ⟨s, hs, hfreed⟩ := exists_reachable_freed
  have h := live_reference_protocol s hs
  exact ⟨s, hfreed, h.2.1, h.1 hfreed⟩

end RdSpeTool
