import RdSpeTool.StackSnapshot

/-!
# Where a stored event comes from

A raw event outlives the two hits it is made of. The seed stays in its slot from the breakpoint
hit to the watchpoint hit, whatever the other slots do meanwhile. A ledger names the positions of
these hits in the run: every armed slot and every used event has a breakpoint hit of its own, and
the events stand in the order of their watchpoint hits.
-/

namespace RdSpeTool

open ProbeTable

structure HeldSeed where
  access : U64
  pcOffset : U64
  targetIndex : ℕ
  snapshot : Option DwarfSnapshot

def Slot.heldSeed (s : Slot) : HeldSeed :=
  ⟨s.seedAccess, s.seedPcOffset, s.targetIndex, s.seedSnapshot⟩

def SeedOf (c : SessionCtl) (t : ℕ) (regs : Option PtRegs) (env : HitEnv) (held : HeldSeed) : Prop :=
  ∃ r target a, regs = some r ∧ c.targets[t]? = some target ∧ env.memAccess = some a ∧
    held = ⟨a, target.pcOffset, t, some (snapshotOf c env.user (some r))⟩

def Thread.SeedsIn (P : ℕ → HeldSeed → Prop) (th : Thread) : Prop :=
  ∀ i s, th.slots[i]? = some s → s.state = .armed → P i s.heldSeed

def Thread.HasSnapshots (th : Thread) : Prop :=
  ∀ s ∈ th.slots, s.seedSnapshot.isSome = true ∧ s.reuseSnapshot.isSome = true

theorem Thread.HasSnapshots.of_frame {th th' : Thread} (h : th.HasSnapshots)
    (hf : th'.frame = th.frame) : th'.HasSnapshots := by
  intro s hs
  have hmem : s.frame ∈ th.slots.map Slot.frame := by
    have hslots : th'.slots.map Slot.frame = th.slots.map Slot.frame := congrArg Frame.slots hf
    rw [← hslots]
    exact List.mem_map_of_mem hs
  obtain ⟨s', hs', he⟩ := List.mem_map.mp hmem
  obtain ⟨h1, h2⟩ := h s' hs'
  simp only [Slot.frame, SlotFrame.mk.injEq] at he
  rw [← he.2.1, ← he.2.2]
  exact ⟨h1, h2⟩

theorem Shaped.hasSnapshots {c : SessionCtl} {th : Thread} (h : Shaped c th)
    (hmode : c.callchainMode = .dwarf) : th.HasSnapshots := by
  cases ha : th.active with
  | false =>
      intro s hs
      rw [h.slots_nil ha] at hs
      cases hs
  | true =>
      obtain ⟨arg, hf⟩ := h.of_live ha
      have hnew : (RdSpeTool.newThread c arg).HasSnapshots := by
        intro s hs
        rw [newThread_eq] at hs
        obtain ⟨s', hs', rfl⟩ := List.mem_map.mp hs
        obtain ⟨i, -, rfl⟩ := List.mem_map.mp hs'
        simp [freshSlot, freshSnapshot, hmode]
      exact hnew.of_frame hf

/-! ## Seeds under the handlers -/

namespace Thread.SeedsIn

variable {P Q : ℕ → HeldSeed → Prop} {c : SessionCtl} {th : Thread}

theorem mono (h : th.SeedsIn P) (hPQ : ∀ i s, P i s → Q i s) : th.SeedsIn Q :=
  fun i s hs ha => hPQ i _ (h i s hs ha)

theorem of_slots {th' : Thread} (h : th.SeedsIn P) (hs : th'.slots = th.slots) : th'.SeedsIn P := by
  intro i s hi
  rw [hs] at hi
  exact h i s hi

/-- A slot is rewritten; it keeps its seed, drops it or gets a good one. -/
theorem updateSlot (h : th.SeedsIn P) (i : ℕ) {f : Slot → Slot}
    (hf : ∀ s, (s.state = .armed → P i s.heldSeed) → (f s).state = .armed → P i (f s).heldSeed) :
    (th.updateSlot i f).SeedsIn P := by
  intro j s hj ha
  obtain ⟨s', hs', ⟨rfl, rfl⟩ | ⟨-, rfl⟩⟩ := getElem?_modify_cases hj
  · exact hf s' (h i s' hs') ha
  · exact h j s hs' ha

theorem rdModifySlot (h : th.SeedsIn P) (i : ℕ) (addr : U64) (len : ℕ) (ret : ℤ) :
    (rdModifySlot c th i addr len ret).1.SeedsIn P := by
  unfold RdSpeTool.rdModifySlot
  split_ifs
  · exact h
  · exact h.updateSlot i fun s hs => hs
  · exact h

theorem rdClearSlotMetadata (h : th.SeedsIn P) (i : ℕ) :
    (rdClearSlotMetadata c th i).SeedsIn P := by
  unfold RdSpeTool.rdClearSlotMetadata
  split_ifs
  · exact h
  · apply h.updateSlot i
    intro s _ harmed
    cases harmed

/-- A replacement pass counts samples and leaves the seeds where they are. -/
theorem replacePass {rng : U64} {slots : List Slot} {i : ℕ} {s' : Slot}
    (h : (replacePass rng slots).1[i]? = some s') :
    ∃ s, slots[i]? = some s ∧ s'.state = s.state ∧ s'.heldSeed = s.heldSeed := by
  have hkeep : ∀ s : Slot, (s.mapCell Cell.sampled).state = s.state ∧
      (s.mapCell Cell.sampled).heldSeed = s.heldSeed := by
    intro s
    simp only [Slot.mapCell, Cell.sampled, Slot.heldSeed]
    split_ifs <;> exact ⟨rfl, rfl⟩
  induction slots generalizing rng i with
  | nil => simp [RdSpeTool.replacePass] at h
  | cons s rest ih =>
      simp only [RdSpeTool.replacePass] at h
      generalize (if s.samples ≠ 0 then s.samples else 1) = samples at h
      split_ifs at h
      · cases i with
        | zero =>
            obtain rfl := Option.some.inj h
            exact ⟨s, rfl, hkeep s⟩
        | succ i => exact ⟨s', h, rfl, rfl⟩
      · cases i with
        | zero =>
            obtain rfl := Option.some.inj h
            exact ⟨s, rfl, hkeep s⟩
        | succ i => exact ih h

theorem rdPickWpSlot (h : th.SeedsIn P) : (rdPickWpSlot c th).1.SeedsIn P := by
  obtain ⟨_, _, _, slots, hslots, he⟩ := rdPickWpSlot_fst c th
  rw [he]
  rcases hslots with rfl | rfl
  · exact h
  · intro i s' hs' harmed
    obtain ⟨s, hs, hstate, hheld⟩ := replacePass hs'
    rw [hheld]
    exact h i s hs (hstate.symm.trans harmed)

theorem settleSeed (h : th.SeedsIn P) (i : ℕ) (seedVa : U64) (accessSize : ℕ) (env : HitEnv) :
    (settleSeed c th i seedVa accessSize env).SeedsIn P := by
  unfold RdSpeTool.settleSeed
  dsimp only
  have hmod : (RdSpeTool.rdModifySlot c th i seedVa accessSize env.modRet).1.SeedsIn P :=
    h.rdModifySlot i seedVa accessSize env.modRet
  split_ifs
  · apply rdModifySlot
    apply rdClearSlotMetadata
    exact hmod.of_slots rfl
  · exact hmod

/-- Arming and snapshot together rewrite one slot. -/
theorem slots_captureSeed (hmode : c.callchainMode = .dwarf) (hsnap : th.HasSnapshots) (i : ℕ)
    (f : Slot → Slot) (hf : ∀ s, (f s).seedSnapshot = s.seedSnapshot) (u : UserMem) (r : PtRegs) :
    (captureSeed c (th.updateSlot i f) i u r).slots = th.slots.modify i fun s =>
      { f s with seedSnapshot := some (snapshotOf c u (some r)) } := by
  cases hi : th.slots[i]? with
  | none =>
      have hlen : th.slots.length ≤ i := List.getElem?_eq_none_iff.mp hi
      unfold captureSeed
      rw [if_neg]
      · change th.slots.modify i f = _
        rw [List.modify_eq_self hlen, List.modify_eq_self hlen]
      · rintro ⟨-, h⟩
        simp [Thread.updateSlot, hi] at h
  | some s =>
      have hs : s.seedSnapshot.isSome = true := (hsnap s (List.mem_of_getElem? hi)).1
      unfold captureSeed
      rw [if_pos]
      · dsimp only
        rw [rdCaptureDwarfSnapshot_snd]
        change (rdCaptureDwarfSnapshot c (th.updateSlot i f) u (some r)).1.slots.modify i _ = _
        rw [slots_rdCaptureDwarfSnapshot]
        change (th.slots.modify i f).modify i _ = _
        rw [List.modify_modify_eq]
        rfl
      · refine ⟨hmode, ?_⟩
        simp [Thread.updateSlot, hi, hf, hs]

theorem installSeed (h : th.SeedsIn P) (hmode : c.callchainMode = .dwarf)
    (hsnap : th.HasSnapshots) (i : ℕ) (isReplacement : Bool) (target : Target) (targetIndex : ℕ)
    (seedVa seedAccess : U64) (contextId : ℕ) (r : PtRegs) (env : HitEnv)
    {seed : HeldSeed} (hseed : seed =
      ⟨seedAccess, target.pcOffset, targetIndex, some (snapshotOf c env.user (some r))⟩) :
    (installSeed c th i isReplacement target targetIndex seedVa seedAccess contextId r env).SeedsIn
      fun j held => if j = i then held = seed else P j held := by
  have hevict : (countEviction th i isReplacement).slots = th.slots := by
    unfold countEviction
    split_ifs <;> rfl
  have hsnap' : (countEviction th i isReplacement).HasSnapshots := by
    intro s hs
    rw [hevict] at hs
    exact hsnap s hs
  unfold RdSpeTool.installSeed
  dsimp only
  apply settleSeed
  intro j s hs harmed
  rw [slots_captureSeed hmode hsnap' i
    (Slot.arm target targetIndex seedVa seedAccess contextId) (fun s => rfl), hevict] at hs
  obtain ⟨s', hs', ⟨rfl, rfl⟩ | ⟨hne, rfl⟩⟩ := getElem?_modify_cases hs
  · rw [if_pos rfl, hseed]
    rfl
  · rw [if_neg hne.symm]
    exact h j s hs' harmed

/-- A breakpoint hit seeds at most one slot, and the others keep their seeds. -/
theorem rdHandleBpHit (h : th.SeedsIn P) (hmode : c.callchainMode = .dwarf)
    (hsnap : th.HasSnapshots) (t : ℕ) (regs : Option PtRegs) (env : HitEnv) :
    ∃ seeded : Option ℕ, (rdHandleBpHit c th t regs env).SeedsIn fun j held =>
      if some j = seeded then SeedOf c t regs env held else P j held := by
  have hkept : ∀ th' : Thread, th'.SeedsIn P → ∃ seeded : Option ℕ, th'.SeedsIn fun j held =>
      if some j = seeded then SeedOf c t regs env held else P j held :=
    fun th' h' => ⟨none, h'.mono fun j held hp => by rwa [if_neg (by simp)]⟩
  obtain he | ⟨r, target, a, th', choice, hreach, hcase⟩ := rdHandleBpHit_cases c th t regs env
  · rw [he]
    exact hkept th h
  · have hpick : th'.SeedsIn P := by
      have hchain : (captureChain c th env.user (some r)).1.addCandidate.SeedsIn P :=
        h.of_slots (slots_captureChain c th env.user (some r))
      have hnext := hchain.rdPickWpSlot (c := c)
      rwa [hreach.picked] at hnext
    obtain he | he | ⟨i, isReplacement, -, -, he⟩ := hcase
    · rw [he]
      exact hkept th' hpick
    · rw [he]
      exact hkept _ (hpick.of_slots rfl)
    · have ha : env.memAccess = some a := by
        have hread := hreach.reading
        unfold rdReadMemAccess at hread
        split_ifs at hread
        exact hread
      have hctx : (contextOf c th' (captureChain c th env.user (some r)).2).1.SeedsIn P :=
        hpick.of_slots (slots_contextOf ..)
      have hsnap' : (contextOf c th' (captureChain c th env.user (some r)).2).1.HasSnapshots :=
        hsnap.of_frame ((frame_contextOf ..).trans (hreach.frame c th))
      rw [he]
      refine ⟨some i, (hctx.installSeed hmode hsnap' i isReplacement target t _ a _ r env rfl).mono
        fun j held hheld => ?_⟩
      by_cases hj : j = i
      · rw [if_pos hj] at hheld
        rw [if_pos (congrArg some hj)]
        exact ⟨r, target, a, hreach.regs, hreach.target, ha, hheld⟩
      · rw [if_neg hj] at hheld
        rwa [if_neg fun he => hj (Option.some.inj he)]

theorem captureReuse (h : th.SeedsIn P) (i : ℕ) (u : UserMem) (regs : Option PtRegs) :
    (captureReuse c th i u regs).1.SeedsIn P := by
  have hchain : (captureChain c th u regs).1.SeedsIn P :=
    h.of_slots (slots_captureChain c th u regs)
  unfold RdSpeTool.captureReuse
  dsimp only
  split_ifs
  · apply updateSlot
    · exact hchain.of_slots (slots_rdCaptureDwarfSnapshot ..)
    · exact fun s hs => hs
  · exact hchain

theorem slots_recordReuse (slot : Slot) (i : ℕ) (reusePc : U64) (chain : List U64)
    (hitAccess : U64) :
    (recordReuse c th slot i reusePc chain hitAccess).slots = th.slots := by
  have hstore : ∀ (t : Thread) (index : Option ℕ),
      (storeEvent t slot i reusePc hitAccess index).slots = t.slots := by
    intro t index
    cases index <;> rfl
  unfold recordReuse
  dsimp only
  rw [hstore]
  change (if c.callchainMode = .dwarf then _ else _ : Thread × Option ℕ).1.slots = _
  split_ifs
  · rw [slots_rdReserveDwarfEventLocked, slots_rdAddPairHistLocked, slots_addBucket,
      slots_contextOf]
  · rw [slots_rdAddPairHistLocked, slots_addBucket, slots_contextOf]

/-- A retired slot holds no seed. -/
theorem retireSlot (h : th.SeedsIn P) {i : ℕ} (hi : i < c.wpCapacity) (idleAddr : U64)
    (idleRet : ℤ) : (retireSlot c th i idleAddr idleRet).SeedsIn fun j held => P j held ∧ j ≠ i := by
  unfold RdSpeTool.retireSlot
  dsimp only
  apply rdModifySlot
  intro j s hs harmed
  have hclear : ∀ s, ¬ (Slot.clear s).state = .armed := fun s => by
    rintro ⟨⟩
  split_ifs at hs with hstate
  · rw [RdSpeTool.rdClearSlotMetadata, if_neg (by omega)] at hs
    obtain ⟨s', hs', ⟨rfl, rfl⟩ | ⟨hne, rfl⟩⟩ := getElem?_modify_cases hs
    · exact absurd harmed (hclear s')
    · exact ⟨h j s hs' harmed, hne.symm⟩
  · refine ⟨h j s hs harmed, ?_⟩
    rintro rfl
    exact hstate (by rw [hs, Option.map_some, harmed])

/-- A watchpoint hit leaves no seed that was not there, and none in a slot whose reuse it records. -/
theorem rdHandleWpHit (h : th.SeedsIn P) (i : ℕ) (regs : Option PtRegs) (env : HitEnv) :
    (rdHandleWpHit c th i regs env).SeedsIn fun j held =>
      P j held ∧ (th.meter.recorded c.meterCtl i env ≠ none → j ≠ i) := by
  have hfreed : i < c.wpCapacity → ∀ th' : Thread, th'.SeedsIn P → ∀ idleAddr,
      (RdSpeTool.retireSlot c th' i idleAddr env.idleRet).SeedsIn fun j held =>
        P j held ∧ (th.meter.recorded c.meterCtl i env ≠ none → j ≠ i) :=
    fun hi th' h' idleAddr => (h'.retireSlot hi idleAddr env.idleRet).mono
      fun j held hp => ⟨hp.1, fun _ => hp.2⟩
  have hcap : (RdSpeTool.captureReuse c th i env.user regs).1.SeedsIn P :=
    h.captureReuse i env.user regs
  obtain ⟨hnone, hcase⟩ | ⟨slot, a, hi, -, -, he⟩ := rdHandleWpHit_cases c th i regs env
  · have hkept : ∀ th' : Thread, th'.SeedsIn P → th'.SeedsIn fun j held =>
        P j held ∧ (th.meter.recorded c.meterCtl i env ≠ none → j ≠ i) :=
      fun th' h' => h'.mono fun j held hp => ⟨hp, fun hne => absurd hnone hne⟩
    obtain he | he | ⟨slot, th', hi, -, hth', he⟩ := hcase
    · rw [he]
      exact hkept th h
    · rw [he]
      exact hkept _ (h.updateSlot i fun s hs => hs)
    · rw [he]
      apply hfreed hi
      rcases hth' with rfl | rfl
      · exact h.of_slots rfl
      · exact hcap.of_slots rfl
  · rw [he]
    exact hfreed hi _ (hcap.of_slots (slots_recordReuse ..)) slot.idleAddr

end Thread.SeedsIn

/-! ## The trail of a thread -/

/-- The event joins the breakpoint hit of target `t` with registers `r` to the watchpoint hit
with registers `regs`. -/
structure DwarfEvent.Joins (c : SessionCtl) (t : ℕ) (r : PtRegs) (env : HitEnv)
    (regs : Option PtRegs) (env' : HitEnv) (e : DwarfEvent) : Prop where
  targetIndex : e.targetIndex = t
  seedPcOffset : c.targets[t]?.map Target.pcOffset = some e.seedPcOffset
  seedAccess : env.memAccess = some e.seedAccess
  hitAccess : env'.memAccess = some e.hitAccess
  delta : e.delta = reuseDelta e.seedAccess e.hitAccess
  bucket : e.bucket = rdLog2Bucket e.delta
  reusePc : e.reusePc = (regs.map PtRegs.pc).getD 0
  seedPc : e.seedPc = e.seed.pc
  seed : e.seed = snapshotOf c env.user (some r)
  reuse : e.reuse = snapshotOf c env'.user regs

def Thread.ArmedAt (th : Thread) (i : ℕ) : Prop := ∃ s, th.slots[i]? = some s ∧ s.state = .armed

def HoldsSeed (s : Session) (k i : ℕ) (held : HeldSeed) : Prop :=
  ∃ th slot, s.threads[k]? = some th ∧ th.slots[i]? = some slot ∧ slot.state = .armed ∧
    slot.heldSeed = held

/-- From event `p` of a run up to event `q` the slot holds the seed. -/
def SeedKept (tgid : ℤ) (es : List SessionEvent) (k i p q : ℕ) (held : HeldSeed) : Prop :=
  ∀ m, p < m → m ≤ q → HoldsSeed ((rdWpctlOpen tgid).run (es.take m)) k i held

def DwarfEvent.heldSeed (e : DwarfEvent) : HeldSeed :=
  ⟨e.seedAccess, e.seedPcOffset, e.targetIndex, some e.seed⟩

/-- The event joins events `p` and `q` of the run, two hits of context `k`: the first seeds a slot,
which keeps that seed until the second reports its reuse. -/
def JoinedAt (c : SessionCtl) (tgid : ℤ) (es : List SessionEvent) (k p q : ℕ) (e : DwarfEvent) :
    Prop :=
  ∃ t r env i regs env', es[p]? = some (.hit k (.bp t (some r) env)) ∧
    es[q]? = some (.hit k (.wp i regs env')) ∧ p < q ∧ SeedKept tgid es k i p q e.heldSeed ∧
    e.Joins c t r env regs env'

/-- Positions in a run: of the hit that seeded a slot, and of the two hits of an event. -/
structure Ledger where
  seededAt : ℕ → ℕ
  seedAt : ℕ → ℕ
  reuseAt : ℕ → ℕ

namespace Ledger

variable (l : Ledger)

def seed (seeded : Option ℕ) (p : ℕ) : Ledger :=
  { l with seededAt := fun i => if some i = seeded then p else l.seededAt i }

def record (n p q : ℕ) : Ledger :=
  { l with seedAt := Function.update l.seedAt n p, reuseAt := Function.update l.reuseAt n q }

end Ledger

/-- Seeds and events of a thread are those of its hits, each hit used once. -/
structure Trail (tgid : ℤ) (es : List SessionEvent) (k : ℕ) (c : SessionCtl) (th : Thread)
    (l : Ledger) : Prop where
  seeds : th.SeedsIn fun i held =>
    (∃ t regs env, es[l.seededAt i]? = some (.hit k (.bp t regs env)) ∧ SeedOf c t regs env held) ∧
      SeedKept tgid es k i (l.seededAt i) es.length held
  seeds_inj : ∀ i j, th.ArmedAt i → th.ArmedAt j → l.seededAt i = l.seededAt j → i = j
  seeds_new : ∀ i, th.ArmedAt i → ∀ n < th.dwarfEventUsed, l.seededAt i ≠ l.seedAt n
  events : ∀ arr, th.dwarfEvents = some arr → ∀ n e, arr[n]? = some e → e.used = true →
    e.tid = th.tid ∧ JoinedAt c tgid es k (l.seedAt n) (l.reuseAt n) e
  past : ∀ n < th.dwarfEventUsed, l.seedAt n < es.length ∧ l.reuseAt n < es.length
  ordered : ∀ m n, m < n → n < th.dwarfEventUsed → l.reuseAt m < l.reuseAt n
  distinct : ∀ m n, m < n → n < th.dwarfEventUsed → l.seedAt m ≠ l.seedAt n

theorem SeedKept.concat {tgid : ℤ} {es : List SessionEvent} {k i p : ℕ} {held : HeldSeed}
    (h : SeedKept tgid es k i p es.length held) {x : SessionEvent}
    (hnow : HoldsSeed ((rdWpctlOpen tgid).run (es ++ [x])) k i held) :
    SeedKept tgid (es ++ [x]) k i p (es ++ [x]).length held := by
  intro m hp hm
  rcases Nat.lt_or_ge es.length m with hlt | hge
  · rwa [List.take_of_length_le (by simpa using hlt)]
  · rw [List.take_append_of_le_length hge]
    exact h m hp hge

theorem JoinedAt.concat {c : SessionCtl} {tgid : ℤ} {es : List SessionEvent} {k p q : ℕ}
    {e : DwarfEvent} (h : JoinedAt c tgid es k p q e) (x : SessionEvent) (b : Bool) :
    JoinedAt (c.withRunning b) tgid (es ++ [x]) k p q e := by
  obtain ⟨t, r, env, i, regs, env', hp, hq, hlt, hkept, he⟩ := h
  have hqlen : q < es.length := (List.getElem?_eq_some_iff.mp hq).1
  refine ⟨t, r, env, i, regs, env', ?_, ?_, hlt, ?_, he.targetIndex, he.seedPcOffset, he.seedAccess,
    he.hitAccess, he.delta, he.bucket, he.reusePc, he.seedPc, he.seed, he.reuse⟩
  · rw [List.getElem?_append_left (hlt.trans hqlen), hp]
  · rw [List.getElem?_append_left hqlen, hq]
  · intro m hpm hmq
    rw [List.take_append_of_le_length (hmq.trans hqlen.le)]
    exact hkept m hpm hmq

theorem slots_captureReuse {c : SessionCtl} {th : Thread} (hmode : c.callchainMode = .dwarf)
    (hsnap : th.HasSnapshots) (u : UserMem) (regs : Option PtRegs) {i : ℕ} {slot : Slot}
    (hslot : th.slots[i]? = some slot) :
    (captureReuse c th i u regs).1.slots[i]? =
      some { slot with reuseSnapshot := some (snapshotOf c u regs) } := by
  have hs : slot.reuseSnapshot.isSome = true := (hsnap slot (List.mem_of_getElem? hslot)).2
  have hchain := slots_captureChain c th u regs
  unfold captureReuse
  dsimp only
  rw [if_pos]
  · rw [rdCaptureDwarfSnapshot_snd]
    change ((rdCaptureDwarfSnapshot c (captureChain c th u regs).1 u regs).1.slots.modify i _)[i]? = _
    rw [slots_rdCaptureDwarfSnapshot, hchain, List.getElem?_modify_eq, hslot]
    rfl
  · rw [hchain, hslot]
    exact ⟨hmode, hs⟩

/-- The event of a recorded hit joins the hit of the seed to the hit itself. -/
theorem dwarfEventOf_joins {c : SessionCtl} {th : Thread} (hmode : c.callchainMode = .dwarf)
    (hsnap : th.HasSnapshots) {i : ℕ} {slot : Slot} (hslot : th.slots[i]? = some slot) {t : ℕ}
    {regs₀ : Option PtRegs} {env₀ : HitEnv} (hseed : SeedOf c t regs₀ env₀ slot.heldSeed)
    (regs : Option PtRegs) {env : HitEnv} {a : U64} (ha : env.memAccess = some a) (n : ℕ)
    {e : DwarfEvent} (he : e = dwarfEventOf (captureReuse c th i env.user regs).1 slot i n
      ((regs.map PtRegs.pc).getD 0) a) :
    ∃ r, regs₀ = some r ∧ e.heldSeed = slot.heldSeed ∧ e.Joins c t r env₀ regs env := by
  obtain ⟨r, target, acc, rfl, htarget, hacc, hheld⟩ := hseed
  have hcap := slots_captureReuse hmode hsnap env.user regs hslot
  unfold Slot.heldSeed at hheld
  simp only [HeldSeed.mk.injEq] at hheld
  obtain ⟨haccess, hpc, hindex, hsnapshot⟩ := hheld
  unfold dwarfEventOf at he
  rw [hcap] at he
  dsimp only [Option.bind_some] at he
  rw [hsnapshot] at he
  subst he
  refine ⟨r, rfl, ?_, hindex, ?_, ?_, ha, rfl, rfl, rfl, rfl, rfl, rfl⟩
  · unfold DwarfEvent.heldSeed Slot.heldSeed
    rw [hsnapshot]
    rfl
  · rw [htarget, hpc]
    rfl
  · rw [haccess]
    exact hacc

namespace Trail

variable {tgid : ℤ} {es : List SessionEvent} {k : ℕ} {c : SessionCtl} {th : Thread} {l : Ledger}

theorem of_empty (hidle : ∀ s ∈ th.slots, s.state = .idle)
    (hevents : ∀ es, th.dwarfEvents = some es → ∀ e ∈ es, e.used = false)
    (hused : th.dwarfEventUsed = 0) : Trail tgid es k c th l := by
  have hnone : ∀ i, ¬ th.ArmedAt i := by
    rintro i ⟨s, hs, harmed⟩
    rw [hidle s (List.mem_of_getElem? hs)] at harmed
    cases harmed
  constructor
  case seeds => exact fun i s hs harmed => absurd ⟨s, hs, harmed⟩ (hnone i)
  case seeds_inj => exact fun i j hi => absurd hi (hnone i)
  case seeds_new => exact fun i hi => absurd hi (hnone i)
  case events =>
    intro arr harr n e he hu
    rw [hevents arr harr e (List.mem_of_getElem? he)] at hu
    cases hu
  case past => exact fun n hn => absurd hn (by omega)
  case ordered => exact fun m n _ hn => absurd hn (by omega)
  case distinct => exact fun m n _ hn => absurd hn (by omega)

theorem newThread (c : SessionCtl) (arg : ThreadRegister) :
    Trail tgid es k c (newThread c arg) l := by
  rw [newThread_eq]
  apply of_empty
  · intro s hs
    obtain ⟨s', hs', rfl⟩ := List.mem_map.mp hs
    obtain ⟨i, -, rfl⟩ := List.mem_map.mp hs'
    rfl
  · intro arr harr e he
    simp only [setupThread, Thread.setEvents] at harr
    split_ifs at harr
    rw [← Option.some.inj harr] at he
    rw [List.eq_of_mem_replicate he]
    rfl
  · rfl

theorem wipe (p : Thread) : Trail tgid es k c p.wipe l := by
  apply of_empty
  · intro s hs
    obtain ⟨s', -, rfl⟩ := List.mem_map.mp hs
    rfl
  · intro arr harr e he
    obtain ⟨arr', -, rfl⟩ := Option.map_eq_some_iff.mp harr
    obtain ⟨e', -, rfl⟩ := List.mem_map.mp he
    rfl
  · rfl

theorem seededAt_lt (h : Trail tgid es k c th l) {i : ℕ} (hi : th.ArmedAt i) :
    l.seededAt i < es.length := by
  obtain ⟨s, hs, harmed⟩ := hi
  obtain ⟨⟨t, regs, env, hget, -⟩, -⟩ := h.seeds i s hs harmed
  exact (List.getElem?_eq_some_iff.mp hget).1

/-- An event that stores no result seeds at most one slot. -/
theorem advance (h : Trail tgid es k c th l) (x : SessionEvent) (b : Bool) (seeded : Option ℕ)
    {th' : Thread}
    (hnow : ∀ i s, th'.slots[i]? = some s → s.state = .armed →
      HoldsSeed ((rdWpctlOpen tgid).run (es ++ [x])) k i s.heldSeed)
    (hslots : th'.SeedsIn fun i held => if some i = seeded then
        ∃ t regs env, x = .hit k (.bp t regs env) ∧ SeedOf c t regs env held
      else ∃ s, th.slots[i]? = some s ∧ s.state = .armed ∧ s.heldSeed = held)
    (hevents : th'.dwarfEvents = th.dwarfEvents) (hused : th'.dwarfEventUsed = th.dwarfEventUsed)
    (htid : th'.tid = th.tid) :
    Trail tgid (es ++ [x]) k (c.withRunning b) th' (l.seed seeded es.length) := by
  have harmed : ∀ i, th'.ArmedAt i → some i ≠ seeded → th.ArmedAt i := by
    rintro i ⟨s, hs, ha⟩ hi
    have hold := hslots i s hs ha
    dsimp only at hold
    rw [if_neg hi] at hold
    obtain ⟨s₀, hs₀, ha₀, -⟩ := hold
    exact ⟨s₀, hs₀, ha₀⟩
  have hlen : (es ++ [x]).length = es.length + 1 := by simp
  constructor
  case seeds =>
    intro i s hs ha
    have hcase := hslots i s hs ha
    dsimp only at hcase
    by_cases hi : some i = seeded
    · rw [if_pos hi] at hcase
      obtain ⟨t, regs, env, rfl, hseed⟩ := hcase
      simp only [Ledger.seed, if_pos hi]
      refine ⟨⟨t, regs, env, by simp, hseed⟩, ?_⟩
      intro m hm hm'
      rw [List.take_of_length_le (by omega)]
      exact hnow i s hs ha
    · rw [if_neg hi] at hcase
      obtain ⟨s₀, hs₀, ha₀, heq⟩ := hcase
      obtain ⟨⟨t, regs, env, hget, hseed⟩, hkept⟩ := h.seeds i s₀ hs₀ ha₀
      rw [heq] at hseed hkept
      simp only [Ledger.seed, if_neg hi]
      refine ⟨⟨t, regs, env, ?_, hseed⟩, hkept.concat (hnow i s hs ha)⟩
      rw [List.getElem?_append_left (List.getElem?_eq_some_iff.mp hget).1, hget]
  case seeds_inj =>
    intro i j hi hj heq
    simp only [Ledger.seed] at heq
    split_ifs at heq with hin hjn hjn
    · exact Option.some.inj (hin.trans hjn.symm)
    · have hlt := h.seededAt_lt (harmed j hj hjn)
      omega
    · have hlt := h.seededAt_lt (harmed i hi hin)
      omega
    · exact h.seeds_inj i j (harmed i hi hin) (harmed j hj hjn) heq
  case seeds_new =>
    intro i hi n hn
    rw [hused] at hn
    simp only [Ledger.seed]
    split_ifs with hin
    · exact (h.past n hn).1.ne'
    · exact h.seeds_new i (harmed i hi hin) n hn
  case events =>
    intro arr harr n e he hu
    obtain ⟨ht, hj⟩ := h.events arr (hevents ▸ harr) n e he hu
    exact ⟨ht.trans htid.symm, hj.concat x b⟩
  case past =>
    intro n hn
    obtain ⟨h1, h2⟩ := h.past n (hused ▸ hn)
    rw [hlen]
    exact ⟨Nat.lt_succ_of_lt h1, Nat.lt_succ_of_lt h2⟩
  case ordered => exact fun m n hmn hn => h.ordered m n hmn (hused ▸ hn)
  case distinct => exact fun m n hmn hn => h.distinct m n hmn (hused ▸ hn)

/-- A stored event takes the next place in the ledger. -/
theorem record (h : Trail tgid es k c th l) {th' : Thread} {e : DwarfEvent} {p q : ℕ}
    (hslots : th'.slots = th.slots) (htid : th'.tid = th.tid)
    (hevents : th'.dwarfEvents = th.dwarfEvents.map fun arr => arr.set th.dwarfEventUsed e)
    (hused : th'.dwarfEventUsed = th.dwarfEventUsed + 1) (hetid : e.tid = th.tid)
    (hjoined : JoinedAt c tgid es k p q e) (hfree : ∀ i, th.ArmedAt i → l.seededAt i ≠ p)
    (hp : ∀ n < th.dwarfEventUsed, l.seedAt n ≠ p) (hq : ∀ n < th.dwarfEventUsed, l.reuseAt n < q) :
    Trail tgid es k c th' (l.record th.dwarfEventUsed p q) := by
  have harmed : ∀ i, th'.ArmedAt i → th.ArmedAt i := by
    rintro i ⟨s, hs, ha⟩
    exact ⟨s, hslots ▸ hs, ha⟩
  have hseed : ∀ n, (l.record th.dwarfEventUsed p q).seedAt n =
      if n = th.dwarfEventUsed then p else l.seedAt n := fun n => Function.update_apply ..
  have hreuse : ∀ n, (l.record th.dwarfEventUsed p q).reuseAt n =
      if n = th.dwarfEventUsed then q else l.reuseAt n := fun n => Function.update_apply ..
  obtain ⟨t, r, env, i, regs, env', hget, hget', -⟩ := id hjoined
  have hplt := (List.getElem?_eq_some_iff.mp hget).1
  have hqlt := (List.getElem?_eq_some_iff.mp hget').1
  constructor
  case seeds => exact h.seeds.of_slots hslots
  case seeds_inj => exact fun i j hi hj => h.seeds_inj i j (harmed i hi) (harmed j hj)
  case seeds_new =>
    intro i hi n hn
    rw [hseed]
    split_ifs with heq
    · exact hfree i (harmed i hi)
    · exact h.seeds_new i (harmed i hi) n (by omega)
  case events =>
    intro arr harr n e' he' hu
    rw [hevents] at harr
    obtain ⟨arr₀, harr₀, rfl⟩ := Option.map_eq_some_iff.mp harr
    rw [List.getElem?_set] at he'
    rw [hseed, hreuse, htid]
    by_cases hn : th.dwarfEventUsed = n
    · subst hn
      simp only [if_true] at he'
      split_ifs at he'
      obtain rfl := Option.some.inj he'
      rw [if_pos rfl, if_pos rfl]
      exact ⟨hetid, hjoined⟩
    · rw [if_neg hn] at he'
      rw [if_neg (Ne.symm hn), if_neg (Ne.symm hn)]
      exact h.events arr₀ harr₀ n e' he' hu
  case past =>
    intro n hn
    rw [hseed, hreuse]
    split_ifs with heq
    · exact ⟨hplt, hqlt⟩
    · exact h.past n (by omega)
  case ordered =>
    intro m n hmn hn
    rw [hreuse, hreuse, if_neg (by omega)]
    split_ifs with heq
    · exact hq m (by omega)
    · exact h.ordered m n hmn (by omega)
  case distinct =>
    intro m n hmn hn
    rw [hseed, hseed, if_neg (by omega)]
    split_ifs with heq
    · exact hp m (by omega)
    · exact h.distinct m n hmn (by omega)

/-- A hit advances the trail, and a recorded one is entered in it. -/
theorem hit (h : Trail tgid es k c th l) (hmode : c.callchainMode = .dwarf)
    (hsnap : th.HasSnapshots) (ht : Hit)
    (hnow : ((rdWpctlOpen tgid).run (es ++ [.hit k ht])).threads[k]? = some (th.hit c ht)) :
    ∃ l', Trail tgid (es ++ [.hit k ht]) k c (th.hit c ht) l' := by
  have hself : th.SeedsIn fun i held => ∃ s, th.slots[i]? = some s ∧ s.state = .armed ∧
      s.heldSeed = held := fun i s hs harmed => ⟨s, hs, harmed, rfl⟩
  have hholds : ∀ i s, (th.hit c ht).slots[i]? = some s → s.state = .armed →
      HoldsSeed ((rdWpctlOpen tgid).run (es ++ [.hit k ht])) k i s.heldSeed :=
    fun i s hs harmed => ⟨_, s, hnow, hs, harmed, rfl⟩
  have htid : (th.hit c ht).tid = th.tid := congrArg Frame.tid (frame_hit c th ht)
  cases ht with
  | bp t regs env =>
      have htab := tables_rdHandleBpHit c th t regs env
      obtain ⟨seeded, hseeded⟩ := hself.rdHandleBpHit hmode hsnap t regs env
      refine ⟨_, h.advance (.hit k (.bp t regs env)) c.running seeded hholds ?_
        (congrArg Tables.dwarfEvents htab) (congrArg Tables.dwarfEventUsed htab) htid⟩
      refine hseeded.mono fun i held hheld => ?_
      split_ifs at hheld ⊢
      · exact ⟨t, regs, env, rfl, hheld⟩
      · exact hheld
  | wp i regs env =>
      have hseeds := hself.rdHandleWpHit (c := c) i regs env
      have hadvance : ∀ th' : Thread, th'.slots = (rdHandleWpHit c th i regs env).slots →
          th'.dwarfEvents = th.dwarfEvents → th'.dwarfEventUsed = th.dwarfEventUsed →
          th'.tid = th.tid → Trail tgid (es ++ [.hit k (.wp i regs env)]) k c th'
            (l.seed none es.length) := by
        intro th' hsl hev hu ht
        refine h.advance (.hit k (.wp i regs env)) c.running none ?_ ?_ hev hu ht
        · intro j s hs
          exact hholds j s (hsl ▸ hs)
        · refine (hseeds.of_slots hsl).mono fun j held hheld => ?_
          rw [if_neg (by simp)]
          exact hheld.1
      rcases tables_rdHandleWpHit c th i regs env with ⟨-, htab⟩ |
        ⟨slot, a, ctx, event, hslot, hrec, -, hevent, htab⟩
      · exact ⟨_, hadvance _ rfl (congrArg Tables.dwarfEvents htab)
          (congrArg Tables.dwarfEventUsed htab) htid⟩
      obtain ⟨-, -, harmed, -, -, hread⟩ := Meter.recorded_eq_some hrec
      obtain ⟨⟨t, regs₀, env₀, hget, hseed⟩, hkept⟩ := h.seeds i slot hslot harmed
      have hpairs := Tables.addPair_events th.tables ⟨slot.seedPcOffset, slot.seedContextId,
        (regs.map PtRegs.pc).getD 0, ctx⟩ (rdLog2Bucket (reuseDelta slot.seedAccess a))
      have hdwarf := congrArg Tables.dwarfEvents htab
      have hcount := congrArg Tables.dwarfEventUsed htab
      unfold Tables.addEvent at hdwarf hcount
      split_ifs at hdwarf hcount with hoff hfull
      · exact ⟨_, hadvance _ rfl (hdwarf.trans hpairs.1) (hcount.trans hpairs.2.1) htid⟩
      · exact ⟨_, hadvance _ rfl (hdwarf.trans hpairs.1) (hcount.trans hpairs.2.1) htid⟩
      · dsimp only at hdwarf hcount
        rw [hpairs.1, hpairs.2.1] at hdwarf
        rw [hpairs.2.1] at hcount
        obtain ⟨r, rfl, hheld, hjoins⟩ := dwarfEventOf_joins hmode hsnap hslot hseed regs
          (Meter.read_eq_some hread) th.dwarfEventUsed (hevent _)
        have hplt := (List.getElem?_eq_some_iff.mp hget).1
        -- the slots as the hit leaves them, with the events it found
        have hbefore := hadvance { rdHandleWpHit c th i regs env with
          dwarfEvents := th.dwarfEvents
          dwarfEventUsed := th.dwarfEventUsed } rfl rfl rfl htid
        refine ⟨_, hbefore.record (p := l.seededAt i) (q := es.length) rfl rfl hdwarf hcount ?_ ?_
          ?_ ?_ ?_⟩
        · rw [hevent]
          exact (congrArg Frame.tid (frame_captureReuse c th i env.user regs)).trans htid.symm
        · refine ⟨t, r, env₀, i, regs, env, ?_, by simp, hplt, ?_, hjoins⟩
          · rw [List.getElem?_append_left hplt, hget]
          · intro m hpm hmq
            rw [hheld, List.take_append_of_le_length hmq]
            exact hkept m hpm hmq
        · rintro j ⟨s, hs, hsarmed⟩ heq
          obtain ⟨⟨s₀, hs₀, ha₀, -⟩, hne⟩ := hseeds j s hs hsarmed
          have hji := h.seeds_inj j i ⟨s₀, hs₀, ha₀⟩ ⟨slot, hslot, harmed⟩ heq
          exact hne (by rw [hrec]; simp) hji
        · exact fun n hn => (h.seeds_new i ⟨slot, hslot, harmed⟩ n hn).symm
        · exact fun n hn => (h.past n hn).2

theorem quiet {c' : SessionCtl} {th' : Thread} (hs : Shaped c th) (h : Trail tgid es k c th l)
    (hstep : QuietStep c th c' th') (x : SessionEvent)
    (hnow : ((rdWpctlOpen tgid).run (es ++ [x])).threads[k]? = some th') :
    ∃ l', Trail tgid (es ++ [x]) k c' th' l' := by
  have hholds : ∀ i s, th'.slots[i]? = some s → s.state = .armed →
      HoldsSeed ((rdWpctlOpen tgid).run (es ++ [x])) k i s.heldSeed :=
    fun i s hs harmed => ⟨_, s, hnow, hs, harmed, rfl⟩
  have hself : th.SeedsIn fun i held => if some i = none then
        ∃ t regs env, x = .hit k (.bp t regs env) ∧ SeedOf c t regs env held
      else ∃ s, th.slots[i]? = some s ∧ s.state = .armed ∧ s.heldSeed = held := by
    intro i s hs harmed
    rw [if_neg (by simp)]
    exact ⟨s, hs, harmed, rfl⟩
  cases hstep with
  | same => exact ⟨_, h.advance x c.running none hholds hself rfl rfl rfl⟩
  | window b =>
      unfold Thread.window at hholds ⊢
      split_ifs at hholds ⊢
      · refine ⟨_, h.advance x b none hholds ?_ rfl rfl rfl⟩
        intro i s hs' harmed
        obtain ⟨s', hs'', rfl⟩ := Option.map_eq_some_iff.mp ((List.getElem?_map ..).symm.trans hs')
        exact hself i s' hs'' harmed
      · exact ⟨_, h.advance x b none hholds hself rfl rfl rfl⟩
  | reset _ mods =>
      obtain ⟨p, hp, -⟩ := hs.reset_parked mods
      rw [hp]
      exact ⟨l, wipe p⟩
  | detach ha =>
      unfold rdThreadDetachLive at hholds ⊢
      rw [hs.liveDetached ha] at hholds ⊢
      refine ⟨_, h.advance x c.running none hholds ?_ rfl rfl rfl⟩
      intro i s hs'
      simp at hs'

end Trail

theorem QuietStep.callchainMode {c c' : SessionCtl} {th th' : Thread}
    (h : QuietStep c th c' th') : c'.callchainMode = c.callchainMode := by
  cases h <;> rfl

/-! ## Runs -/

/-- In DWARF mode every thread of every run carries a trail of its hits. -/
theorem trail_run (tgid : ℤ) (es : List SessionEvent) {k : ℕ} {th : Thread}
    (hth : ((rdWpctlOpen tgid).run es).threads[k]? = some th)
    (hmode : ((rdWpctlOpen tgid).run es).callchainMode = .dwarf) :
    ∃ l, Trail tgid es k ((rdWpctlOpen tgid).run es).toSessionCtl th l := by
  induction es using List.reverseRecOn generalizing th with
  | nil => simp [Session.run, rdWpctlOpen] at hth
  | append_singleton es e ih =>
      have hreach : ((rdWpctlOpen tgid).run es).Reachable := ⟨tgid, es, rfl⟩
      have hnow := hth
      rw [Session.run_append] at hth hmode
      have hctl : (((rdWpctlOpen tgid).run (es ++ [e])).toSessionCtl) =
          ((((rdWpctlOpen tgid).run es).run [e]).toSessionCtl) := by rw [Session.run_append]
      rw [hctl]
      generalize (rdWpctlOpen tgid).run es = s at hreach hth hmode ih ⊢
      cases e with
      | ioctl cmd =>
          change ∃ l, Trail tgid _ k (rdWpctlIoctl s cmd).2.toSessionCtl th l
          rcases Session.ioctl_thread hreach.wellFormed cmd hth with ⟨th0, hth0, hstep⟩ |
            ⟨-, -, arg, rfl⟩
          · have hmode0 : s.callchainMode = .dwarf := hstep.callchainMode.symm.trans hmode
            obtain ⟨l, hl⟩ := ih hth0 hmode0
            exact hl.quiet (hreach.shaped (List.mem_of_getElem? hth0)) hstep _ hnow
          · exact ⟨⟨id, id, id⟩, Trail.newThread _ arg⟩
      | hit j ht =>
          change ∃ l, Trail tgid _ k s.toSessionCtl th l
          change (s.threads.modify j fun th => th.hit s.toSessionCtl ht)[k]? = some th at hth
          obtain ⟨th0, hth0, ⟨rfl, rfl⟩ | ⟨hne, rfl⟩⟩ := getElem?_modify_cases hth
          · obtain ⟨l, hl⟩ := ih hth0 hmode
            exact hl.hit hmode ((hreach.shaped (List.mem_of_getElem? hth0)).hasSnapshots hmode) ht
              hnow
          · obtain ⟨l, hl⟩ := ih hth0 hmode
            exact hl.quiet (hreach.shaped (List.mem_of_getElem? hth0)) .same _ hnow

end RdSpeTool
