import RdSpeTool.Schedule

/-!
# The sampler thread and its commands

`run_sampler_thread` waits for slots with data and for commands on an eventfd, a counter that adds
up what is written until it is read. A command makes it drain every slot; the stop command also
ends its loop. The thread writes its id to the eventfd once at its start, and the constructor reads
it before anyone else can write, so the counter is zero when the first command comes.
-/

namespace RdSpeTool

open Schedule

def samplerDrain : ℕ := 1
def samplerStop : ℕ := 2

inductive SamplerEvent
  | slot (id : ℕ)
  | eventFd
  deriving DecidableEq

/-- Where the thread stands. With no events left it waits; while it drains it has the command, the
slots still to do and the samples found. -/
inductive SamplerPhase
  | handling (events : List SamplerEvent)
  | draining (efdCmd : ℕ) (slots : List ℕ) (extraSamples : ℕ)
  | left
  deriving DecidableEq

structure SamplerThread where
  eventFd : ℕ
  phase : SamplerPhase
  deriving DecidableEq

inductive SamplerStep
  | wake (events : List SamplerEvent)
  | slot
  | read (slots : List ℕ)
  | drainSlot (found : ℕ)
  | finish
  deriving DecidableEq

namespace SamplerThread

def initial : SamplerThread := ⟨0, .handling []⟩

def write (t : SamplerThread) (val : ℕ) : SamplerThread := { t with eventFd := t.eventFd + val }

def step (t : SamplerThread) (st : SamplerStep) : Option SamplerThread :=
  match st, t.phase with
  -- the wait has no timeout, and reports the eventfd only if there is something to read
  | .wake events, .handling [] =>
      if events ≠ [] ∧ (.eventFd ∈ events → 0 < t.eventFd) then
        some { t with phase := .handling events }
      else none
  | .slot, .handling (.slot _ :: events) => some { t with phase := .handling events }
  -- a command drops the events behind it
  | .read slots, .handling (.eventFd :: _) =>
      if 0 < t.eventFd then some ⟨0, .draining t.eventFd slots 0⟩ else none
  | .drainSlot found, .draining cmd (_ :: slots) extra =>
      some { t with phase := .draining cmd slots (extra + found) }
  | .finish, .draining cmd [] _ =>
      some { t with phase := if cmd = samplerStop then .left else .handling [] }
  | _, _ => none

def Leaving (t : SamplerThread) : Prop :=
  match t.phase with
  | .handling _ => False
  | .draining cmd _ _ => cmd = samplerStop
  | .left => True

variable {t t' : SamplerThread}

/-- All a step of the thread can do. -/
theorem step_cases {st : SamplerStep} (h : t.step st = some t') :
    (∃ events, st = .wake events ∧ t.phase = .handling [] ∧ events ≠ [] ∧
        (.eventFd ∈ events → 0 < t.eventFd) ∧ t' = { t with phase := .handling events }) ∨
      (∃ id events, st = .slot ∧ t.phase = .handling (.slot id :: events) ∧
        t' = { t with phase := .handling events }) ∨
      (∃ slots events, st = .read slots ∧ t.phase = .handling (.eventFd :: events) ∧
        0 < t.eventFd ∧ t' = ⟨0, .draining t.eventFd slots 0⟩) ∨
      (∃ found cmd id slots extra, st = .drainSlot found ∧
        t.phase = .draining cmd (id :: slots) extra ∧
        t' = { t with phase := .draining cmd slots (extra + found) }) ∨
      ∃ cmd extra, st = .finish ∧ t.phase = .draining cmd [] extra ∧
        t' = { t with phase := if cmd = samplerStop then .left else .handling [] } := by
  unfold step at h
  split at h
  next events hphase =>
    split_ifs at h with hev
    exact .inl ⟨events, rfl, hphase, hev.1, hev.2, (Option.some.inj h).symm⟩
  next id events hphase =>
    exact .inr (.inl ⟨id, events, rfl, hphase, (Option.some.inj h).symm⟩)
  next slots events hphase =>
    split_ifs at h with hpos
    exact .inr (.inr (.inl ⟨slots, events, rfl, hphase, hpos, (Option.some.inj h).symm⟩))
  next found cmd id slots extra hphase =>
    exact .inr (.inr (.inr (.inl
      ⟨found, cmd, id, slots, extra, rfl, hphase, (Option.some.inj h).symm⟩)))
  next cmd extra hphase =>
    exact .inr (.inr (.inr (.inr ⟨cmd, extra, rfl, hphase, (Option.some.inj h).symm⟩)))
  next => cases h

theorem read_eq {slots : List ℕ} (h : t.step (.read slots) = some t') :
    t' = ⟨0, .draining t.eventFd slots 0⟩ := by
  obtain ⟨_, he, -⟩ | ⟨_, _, he, -⟩ | ⟨slots', events, he, hphase, hpos, rfl⟩ |
    ⟨_, _, _, _, _, he, -⟩ | ⟨_, _, he, -⟩ := step_cases h
  · cases he
  · cases he
  · cases he
    rfl
  · cases he
  · cases he

/-- Nothing turns a leaving thread round, and the end of its drain is the end of its loop. -/
theorem Leaving.step {st : SamplerStep} (hl : t.Leaving) (h : t.step st = some t') :
    t'.Leaving ∧ (st = .finish → t'.phase = .left) := by
  obtain ⟨_, rfl, hphase, -⟩ | ⟨_, _, rfl, hphase, -⟩ | ⟨_, _, rfl, hphase, -⟩ |
    ⟨_, _, _, _, _, rfl, hphase, rfl⟩ | ⟨cmd, _, rfl, hphase, rfl⟩ := step_cases h
  · simp [Leaving, hphase] at hl
  · simp [Leaving, hphase] at hl
  · simp [Leaving, hphase] at hl
  · simp only [Leaving, hphase] at hl
    exact ⟨hl, by simp⟩
  · simp only [Leaving, hphase] at hl
    simp [Leaving, hl]

end SamplerThread

/-! ## The command channel -/

/-- The thread with its writers; `destroyed` once the destructor has sent the stop command. -/
structure Channel where
  thread : SamplerThread
  destroyed : Bool
  deriving DecidableEq

inductive ChannelStep
  | stop
  | readSamples
  | destroy
  | sampler (st : SamplerStep)
  deriving DecidableEq

namespace Channel

def initial : Channel := ⟨.initial, false⟩

/-- The destructor comes last, so it is the last writer. -/
def step (nonstop : Bool) (c : Channel) : ChannelStep → Option Channel
  | .stop =>
      if c.destroyed then none
      else some { c with thread := if nonstop then c.thread else c.thread.write samplerDrain }
  | .readSamples =>
      if c.destroyed then none else some { c with thread := c.thread.write samplerDrain }
  | .destroy => if c.destroyed then none else some ⟨c.thread.write samplerStop, true⟩
  | .sampler st => (c.thread.step st).map fun t => { c with thread := t }

end Channel

namespace ChannelStep

def isRead : ChannelStep → Bool
  | .sampler (.read _) => true
  | _ => false

def drains (nonstop : Bool) : ChannelStep → ℕ
  | .stop => if nonstop then 0 else 1
  | .readSamples => 1
  | _ => 0

def writes (nonstop : Bool) : ChannelStep → ℕ
  | .stop => if nonstop then 0 else samplerDrain
  | .readSamples => samplerDrain
  | .destroy => samplerStop
  | .sampler _ => 0

end ChannelStep

def sinceRead (f : ChannelStep → ℕ) (n : ℕ) (steps : List ChannelStep) : ℕ :=
  steps.foldl (fun n st => if st.isRead then 0 else n + f st) n

def unreadDrains (nonstop : Bool) (steps : List ChannelStep) : ℕ :=
  sinceRead (·.drains nonstop) 0 steps

/-- The thread leaves only after the stop command was written, and the first read after that makes
it leave. -/
def StopObeyed (nonstop : Bool) (steps : List ChannelStep) : Prop :=
  ∀ p, p <+: steps → ∀ c, run (Channel.step nonstop) .initial p = some c →
    (c.thread.phase = .left → .destroy ∈ p) ∧
      ∀ a b slots rest, p = a ++ .destroy :: b ++ .sampler (.read slots) :: rest →
        (∀ st ∈ b, st.isRead = false) → c.thread.Leaving

/-- No drain before the stop command ends on a read of exactly two drain commands, and the first
read after the stop command finds no drain command with it. -/
structure CommandsApart (nonstop : Bool) (steps : List ChannelStep) : Prop where
  notTwo : ∀ a slots b c, steps = a ++ .sampler (.read slots) :: b ++ .sampler .finish :: c →
    .destroy ∉ a ++ b → unreadDrains nonstop a ≠ 2
  alone : ∀ a b slots c, steps = a ++ .destroy :: b ++ .sampler (.read slots) :: c →
    (∀ st ∈ b, st.isRead = false) → unreadDrains nonstop (a ++ .destroy :: b) = 0

/-! ## What stands in the eventfd -/

section Counter

variable {nonstop : Bool}

theorem Channel.step_cases {c c' : Channel} {st : ChannelStep}
    (h : c.step nonstop st = some c') :
    (∃ sst, st = .sampler sst ∧ c.thread.step sst = some c'.thread ∧ c'.destroyed = c.destroyed) ∨
      ((∀ sst, st ≠ .sampler sst) ∧ c.destroyed = false ∧
        c'.thread = c.thread.write (st.writes nonstop) ∧ (c'.destroyed ↔ st = .destroy)) := by
  have hwriter : ∀ t b, (if c.destroyed then none else some (Channel.mk t b)) = some c' →
      c.destroyed = false ∧ c'.thread = t ∧ c'.destroyed = b := by
    intro t b hc
    split_ifs at hc with hd
    cases hc
    exact ⟨Bool.eq_false_iff.mpr hd, rfl, rfl⟩
  cases st with
  | sampler sst =>
      obtain ⟨t, ht, rfl⟩ := Option.map_eq_some_iff.mp h
      exact .inl ⟨sst, rfl, ht, rfl⟩
  | stop =>
      obtain ⟨hd, ht, hd'⟩ := hwriter _ _ h
      refine .inr ⟨by simp, hd, ?_, by simp [hd', hd]⟩
      rw [ht]
      cases nonstop <;> rfl
  | readSamples =>
      obtain ⟨hd, ht, hd'⟩ := hwriter _ _ h
      exact .inr ⟨by simp, hd, ht, by simp [hd', hd]⟩
  | destroy =>
      obtain ⟨hd, ht, hd'⟩ := hwriter _ _ h
      exact .inr ⟨by simp, hd, ht, by simp [hd']⟩

theorem Channel.step_eventFd {c c' : Channel} {st : ChannelStep}
    (h : c.step nonstop st = some c') :
    c'.thread.eventFd = if st.isRead then 0 else c.thread.eventFd + st.writes nonstop := by
  obtain ⟨sst, rfl, hs, -⟩ | ⟨hne, -, ht, -⟩ := c.step_cases h
  · obtain ⟨_, rfl, -, -, -, he⟩ | ⟨_, _, rfl, -, he⟩ | ⟨_, _, rfl, -, -, he⟩ |
      ⟨_, _, _, _, _, rfl, -, he⟩ | ⟨_, _, rfl, -, he⟩ := SamplerThread.step_cases hs <;>
      simp [he, ChannelStep.isRead, ChannelStep.writes]
  · have hread : st.isRead = false := by
      cases st with
      | sampler sst => exact absurd rfl (hne sst)
      | stop => rfl
      | readSamples => rfl
      | destroy => rfl
    rw [ht, hread]
    rfl

/-- The eventfd holds what was written since the last read. -/
theorem Channel.run_eventFd {c : Channel} {steps : List ChannelStep}
    (h : run (Channel.step nonstop) .initial steps = some c) :
    c.thread.eventFd = sinceRead (·.writes nonstop) 0 steps := by
  refine run_induction (P := fun steps c => c.thread.eventFd =
    sinceRead (·.writes nonstop) 0 steps) rfl ?_ h
  intro as m st t _ ih hstep
  rw [Channel.step_eventFd hstep, ih]
  simp [sinceRead]

/-- The destructor writes once. -/
theorem Channel.run_destroyed {c : Channel} {steps : List ChannelStep}
    (h : run (Channel.step nonstop) .initial steps = some c) :
    c.destroyed ↔ .destroy ∈ steps := by
  refine run_induction (P := fun steps c => c.destroyed ↔ .destroy ∈ steps) (by simp [initial])
    ?_ h
  intro as m st t _ ih hstep
  obtain ⟨sst, rfl, -, hd⟩ | ⟨-, hd, -, hd'⟩ := m.step_cases hstep
  · simp [hd, ih]
  · have hnot : ChannelStep.destroy ∉ as := fun hmem => by simp [ih.mpr hmem] at hd
    rw [hd', List.mem_append, List.mem_singleton]
    exact ⟨fun he => .inr he.symm, fun hor => hor.elim (fun hm => absurd hm hnot) Eq.symm⟩

theorem Channel.destroy_once {c : Channel} {a b : List ChannelStep}
    (h : run (Channel.step nonstop) .initial (a ++ .destroy :: b) = some c) :
    .destroy ∉ a ∧ .destroy ∉ b := by
  obtain ⟨m, hm, hrest⟩ := exists_of_run_append h
  obtain ⟨m', hstep, hb⟩ := exists_of_run_cons hrest
  have hm' : m.destroyed = false := by
    by_contra hd
    simp [Channel.step, hd] at hstep
  refine ⟨fun hmem => by simp [(run_destroyed hm).mpr hmem] at hm', ?_⟩
  -- every later write finds the destructor at work
  have hkeep : m'.destroyed = true := by
    simp only [Channel.step, hm', Bool.false_eq_true, if_false, Option.some.injEq] at hstep
    rw [← hstep]
  intro hmem
  obtain ⟨b1, b2, rfl⟩ := List.append_of_mem hmem
  obtain ⟨m2, hm2, hrest2⟩ := exists_of_run_append hb
  have hm2d : m2.destroyed = true := by
    refine run_invariant (P := fun m : Channel => m.destroyed = true) ?_ hkeep hm2
    intro n st n' hn hst
    obtain ⟨_, -, -, hd⟩ | ⟨-, hd, -⟩ := n.step_cases hst
    · rw [hd, hn]
    · simp [hn] at hd
  obtain ⟨_, hstep2, -⟩ := exists_of_run_cons hrest2
  simp [Channel.step, hm2d] at hstep2

theorem ChannelStep.writes_eq {st : ChannelStep} (h : st ≠ .destroy) :
    st.writes nonstop = st.drains nonstop := by
  cases st with
  | destroy => exact absurd rfl h
  | stop => rfl
  | readSamples => rfl
  | sampler sst => rfl

theorem sinceRead_writes {n : ℕ} {steps : List ChannelStep} (h : .destroy ∉ steps) :
    sinceRead (·.writes nonstop) n steps = sinceRead (·.drains nonstop) n steps := by
  induction steps generalizing n with
  | nil => rfl
  | cons st steps ih =>
      obtain ⟨hst, hsteps⟩ := List.ne_and_not_mem_of_not_mem_cons h
      have hih := ih (n := if st.isRead then 0 else n + st.drains nonstop) hsteps
      simpa [sinceRead, ChannelStep.writes_eq (Ne.symm hst)] using hih

/-- Without a read an offset stays in the sum. -/
theorem sinceRead_add {n e : ℕ} {steps : List ChannelStep} (h : .destroy ∉ steps)
    (hread : ∀ st ∈ steps, st.isRead = false) :
    sinceRead (·.writes nonstop) (n + e) steps = sinceRead (·.drains nonstop) n steps + e := by
  induction steps generalizing n with
  | nil => rfl
  | cons st steps ih =>
      obtain ⟨hst, hsteps⟩ := List.ne_and_not_mem_of_not_mem_cons h
      obtain ⟨hhead, htail⟩ := List.forall_mem_cons.mp hread
      have hih := ih (n := n + st.drains nonstop) hsteps htail
      have hsum : n + e + st.drains nonstop = n + st.drains nonstop + e := by omega
      simpa [sinceRead, ChannelStep.writes_eq (Ne.symm hst), hhead, hsum] using hih

/-- A drain command before the stop command is added to it. -/
theorem sinceRead_destroy {a b : List ChannelStep} (ha : .destroy ∉ a) (hb : .destroy ∉ b)
    (hread : ∀ st ∈ b, st.isRead = false) :
    sinceRead (·.writes nonstop) 0 (a ++ .destroy :: b) =
      unreadDrains nonstop (a ++ .destroy :: b) + samplerStop := by
  have hsplit : ∀ f : ChannelStep → ℕ, sinceRead f 0 (a ++ .destroy :: b) =
      sinceRead f (sinceRead f 0 a + f .destroy) b := by
    intro f
    simp [sinceRead, ChannelStep.isRead]
  rw [unreadDrains, hsplit, hsplit, sinceRead_writes ha]
  exact sinceRead_add hb hread

end Counter

/-! ## Commands along a run -/

section Commands

variable {nonstop : Bool}

theorem Channel.leaving_run {c c' : Channel} {steps : List ChannelStep} (hl : c.thread.Leaving)
    (h : run (Channel.step nonstop) c steps = some c') : c'.thread.Leaving := by
  refine run_invariant (P := fun c : Channel => c.thread.Leaving) ?_ hl h
  intro m st m' hm hstep
  obtain ⟨sst, -, hs, -⟩ | ⟨-, -, ht, -⟩ := m.step_cases hstep
  · exact (hm.step hs).1
  · rw [ht]
    exact hm

theorem Channel.step_read {c c' : Channel} {slots : List ℕ}
    (h : c.step nonstop (.sampler (.read slots)) = some c') :
    c'.thread.phase = .draining c.thread.eventFd slots 0 := by
  obtain ⟨t, ht, rfl⟩ := Option.map_eq_some_iff.mp h
  exact congrArg SamplerThread.phase (SamplerThread.read_eq ht)

/-- Where the command of a thread comes from: the read that took it, and for a thread that has left
also the end of its drain. -/
structure CommandTaken (nonstop : Bool) (steps : List ChannelStep) (c : Channel) : Prop where
  draining : ∀ cmd todo extra, c.thread.phase = .draining cmd todo extra →
    ∃ a slots b, steps = a ++ .sampler (.read slots) :: b ∧
      cmd = sinceRead (·.writes nonstop) 0 a
  left : c.thread.phase = .left → ∃ a slots b rest,
    steps = a ++ .sampler (.read slots) :: b ++ .sampler .finish :: rest ∧
      samplerStop = sinceRead (·.writes nonstop) 0 a

theorem Channel.commandTaken_step {c c' : Channel} {steps : List ChannelStep} {st : ChannelStep}
    (hrun : run (Channel.step nonstop) .initial steps = some c)
    (h : CommandTaken nonstop steps c) (hstep : c.step nonstop st = some c') :
    CommandTaken nonstop (steps ++ [st]) c' := by
  have hdraining : ∀ cmd todo extra, c.thread.phase = .draining cmd todo extra →
      ∃ a slots b, steps ++ [st] = a ++ .sampler (.read slots) :: b ∧
        cmd = sinceRead (·.writes nonstop) 0 a := by
    intro cmd todo extra hphase
    obtain ⟨a, slots, b, rfl, hcmd⟩ := h.draining cmd todo extra hphase
    exact ⟨a, slots, b ++ [st], by simp, hcmd⟩
  obtain ⟨sst, rfl, hs, -⟩ | ⟨-, -, ht, -⟩ := c.step_cases hstep
  · obtain ⟨_, -, -, -, -, he⟩ | ⟨_, _, -, -, he⟩ | ⟨slots, _, rfl, -, -, he⟩ |
      ⟨_, cmd, id, slots, extra, -, hphase, he⟩ | ⟨cmd, extra, rfl, hphase, he⟩ :=
      SamplerThread.step_cases hs
    · exact ⟨by simp [he], by simp [he]⟩
    · exact ⟨by simp [he], by simp [he]⟩
    · refine ⟨?_, by simp [he]⟩
      intro cmd todo extra hnew
      rw [he] at hnew
      obtain ⟨rfl, rfl, rfl⟩ := SamplerPhase.draining.inj hnew
      exact ⟨steps, _, [], rfl, run_eventFd hrun⟩
    · refine ⟨?_, by simp [he]⟩
      intro cmd' todo extra' hnew
      rw [he] at hnew
      obtain ⟨rfl, rfl, rfl⟩ := SamplerPhase.draining.inj hnew
      exact hdraining _ _ _ hphase
    · obtain ⟨a, slots, b, rfl, hcmd⟩ := h.draining _ _ _ hphase
      by_cases hstop : cmd = samplerStop
      · refine ⟨by simp [he, hstop], fun _ => ⟨a, slots, b, [], rfl, ?_⟩⟩
        rw [← hstop, hcmd]
      · exact ⟨by simp [he, hstop], by simp [he, hstop]⟩
  · refine ⟨fun cmd todo extra hnew => ?_, fun hnew => ?_⟩
    · rw [ht] at hnew
      exact hdraining cmd todo extra hnew
    · rw [ht] at hnew
      obtain ⟨a, slots, b, rest, rfl, hcmd⟩ := h.left hnew
      exact ⟨a, slots, b, rest ++ [st], by simp, hcmd⟩

theorem Channel.run_commandTaken {c : Channel} {steps : List ChannelStep}
    (h : run (Channel.step nonstop) .initial steps = some c) : CommandTaken nonstop steps c := by
  refine run_induction (P := CommandTaken nonstop) ⟨?_, ?_⟩ ?_ h
  · intro cmd todo extra hphase
    cases hphase
  · intro hphase
    cases hphase
  · intro as m st t hm ih hstep
    exact commandTaken_step hm ih hstep

/-- The command of the first read after the stop command. -/
theorem Channel.read_after_destroy {c : Channel} {a b : List ChannelStep} {slots : List ℕ}
    (h : run (Channel.step nonstop) .initial (a ++ .destroy :: b ++ [.sampler (.read slots)]) =
      some c) (hread : ∀ st ∈ b, st.isRead = false) :
    c.thread.phase = .draining (unreadDrains nonstop (a ++ .destroy :: b) + samplerStop) slots 0 := by
  obtain ⟨m, hm, hstep⟩ := exists_of_run_concat h
  obtain ⟨ha, hb⟩ := destroy_once hm
  rw [step_read hstep, run_eventFd hm, sinceRead_destroy ha hb hread]

theorem CommandsApart.of_stopObeyed {steps : List ChannelStep} {c : Channel}
    (hrun : run (Channel.step nonstop) .initial steps = some c) (h : StopObeyed nonstop steps) :
    CommandsApart nonstop steps := by
  refine ⟨?_, ?_⟩
  · intro a slots b rest hsplit hnot htwo
    -- the run up to the end of the drain: the thread has left, but nobody wrote the stop command
    have hpre : steps = (a ++ .sampler (.read slots) :: (b ++ [.sampler .finish])) ++ rest := by
      simp [hsplit]
    rw [hpre] at hrun
    obtain ⟨m, hm, -⟩ := exists_of_run_append hrun
    obtain ⟨m1, hm1, hrest⟩ := exists_of_run_append hm
    obtain ⟨m2, hstep, hrest2⟩ := exists_of_run_cons hrest
    obtain ⟨m3, hm3, hfinish⟩ := exists_of_run_concat hrest2
    have hna : .destroy ∉ a := fun hmem => hnot (List.mem_append_left b hmem)
    have hnb : .destroy ∉ b := fun hmem => hnot (List.mem_append_right a hmem)
    have hcmd : m1.thread.eventFd = samplerStop := by
      rw [Channel.run_eventFd hm1, sinceRead_writes hna]
      exact htwo
    have hleaving : m2.thread.Leaving := by
      rw [SamplerThread.Leaving, Channel.step_read hstep]
      exact hcmd
    obtain ⟨t, ht, rfl⟩ := Option.map_eq_some_iff.mp hfinish
    have hleft := ((Channel.leaving_run hleaving hm3).step ht).2 rfl
    have hmem := (h _ ⟨rest, hpre.symm⟩ _ hm).1 hleft
    simp [hna, hnb] at hmem
  · intro a b slots rest hsplit hread
    have hpre : steps = (a ++ .destroy :: b ++ [.sampler (.read slots)]) ++ rest := by
      simp [hsplit]
    rw [hpre] at hrun
    obtain ⟨m, hm, -⟩ := exists_of_run_append hrun
    have hleaving := (h _ ⟨rest, hpre.symm⟩ _ hm).2 a b slots [] rfl hread
    rw [SamplerThread.Leaving, Channel.read_after_destroy hm hread] at hleaving
    exact Nat.add_eq_right.mp hleaving

theorem StopObeyed.of_commandsApart {steps : List ChannelStep}
    (h : CommandsApart nonstop steps) : StopObeyed nonstop steps := by
  rintro p ⟨tail, rfl⟩ c hp
  refine ⟨?_, ?_⟩
  · intro hleft
    obtain ⟨a, slots, b, rest, rfl, hcmd⟩ := (Channel.run_commandTaken hp).left hleft
    by_contra hnot
    have hab : .destroy ∉ a ++ b := by
      intro hmem
      apply hnot
      rcases List.mem_append.mp hmem with hmem | hmem <;> simp [hmem]
    have htwo : unreadDrains nonstop a = 2 := by
      rw [unreadDrains, ← sinceRead_writes fun hmem => hab (List.mem_append_left b hmem)]
      exact hcmd.symm
    exact h.notTwo a slots b (rest ++ tail) (by simp) hab htwo
  · rintro a b slots rest rfl hread
    have hnone := h.alone a b slots (rest ++ tail) (by simp) hread
    have hpre : a ++ .destroy :: b ++ .sampler (.read slots) :: rest =
        (a ++ .destroy :: b ++ [.sampler (.read slots)]) ++ rest := by simp
    rw [hpre] at hp
    obtain ⟨m, hm, hrest⟩ := exists_of_run_append hp
    refine Channel.leaving_run ?_ hrest
    rw [SamplerThread.Leaving, Channel.read_after_destroy hm hread, hnone, Nat.zero_add]

/-- The stop command is obeyed, and nothing else is, exactly on the schedules that keep drain
commands apart. -/
theorem stop_obeyed_iff (nonstop : Bool) (steps : List ChannelStep) (c : Channel)
    (hrun : run (Channel.step nonstop) .initial steps = some c) :
    StopObeyed nonstop steps ↔ CommandsApart nonstop steps :=
  ⟨CommandsApart.of_stopObeyed hrun, StopObeyed.of_commandsApart⟩

end Commands

def obeyed (cmd : ChannelStep) : List ChannelStep :=
  [cmd, .sampler (.wake [.eventFd]), .sampler (.read []), .sampler .finish]

theorem unreadDrains_eq_zero {nonstop : Bool} {steps : List ChannelStep}
    (h : ∀ st ∈ steps, st.drains nonstop = 0) : unreadDrains nonstop steps = 0 := by
  unfold unreadDrains
  induction steps with
  | nil => rfl
  | cons st steps ih =>
      obtain ⟨hst, hsteps⟩ := List.forall_mem_cons.mp h
      simpa [sinceRead, hst] using ih hsteps

theorem stop_obeyed_small : StopObeyed false (obeyed .destroy) := by
  apply (stop_obeyed_iff false _ ⟨⟨0, .left⟩, true⟩ (by decide)).mpr
  have hnone : ∀ a b, obeyed .destroy = a ++ b → unreadDrains false a = 0 := by
    intro a b hsplit
    apply unreadDrains_eq_zero
    intro st hst
    have hall : ∀ st ∈ obeyed .destroy, st.drains false = 0 := by decide
    exact hall st (hsplit ▸ List.mem_append_left b hst)
  refine ⟨fun a slots b c hsplit _ htwo => ?_, fun a b slots c hsplit _ => hnone _ _ hsplit⟩
  rw [List.append_assoc] at hsplit
  rw [hnone _ _ hsplit] at htwo
  cases htwo

/-- Two drain commands make the thread leave; a drain and the stop command keep it. -/
theorem commands_added_up :
    ¬ StopObeyed false (.readSamples :: obeyed .stop) ∧
      ¬ StopObeyed false (.stop :: obeyed .destroy) := by
  refine ⟨fun h => ?_, fun h => ?_⟩
  · have hleft := (h _ List.prefix_rfl ⟨⟨0, .left⟩, false⟩ (by decide)).1 rfl
    exact absurd hleft (by decide)
  · exact (h _ List.prefix_rfl ⟨⟨0, .handling []⟩, true⟩ (by decide)).2 [.stop]
      [.sampler (.wake [.eventFd])] [] [.sampler .finish] rfl (by decide)

end RdSpeTool
