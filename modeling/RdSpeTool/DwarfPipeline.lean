import RdSpeTool.SnapshotTrail

/-!
# From a hit to the resolver

The raw events of a context are fetched, written and read back. What the resolver holds in the end
is what the two hits of each event saw: registers, counters, and the user stack word by word.
-/

namespace RdSpeTool

open ByteRecords Resolver

/-- Counts and ids fit the integer types of the control interface. -/
structure Session.FitsTypes (s : Session) : Prop where
  threads : s.threads.length ≤ 2 ^ 32
  targets : s.targetCount ≤ 2 ^ 32
  dwarfEventCapacity : s.dwarfEventCapacity ≤ 2 ^ 32
  tid : ∀ th ∈ s.threads, -2 ^ 31 ≤ th.tid ∧ th.tid < 2 ^ 31

/-! ## Writing -/

section Writer

variable {s : Session} {env : DwarfWriteEnv} {k : ℕ}

theorem rdGetDwarfEventLocked_eq (henv : env.AllOk) {th : Thread} (hth : s.threads[k]? = some th)
    {es : List DwarfEvent} (hes : th.dwarfEvents = some es) {n : ℕ} (hn : n < s.dwarfEventCapacity)
    {e : DwarfEvent} (he : es[n]? = some e) (hused : e.used = true) :
    rdGetDwarfEventLocked s (env.get n) (env.allocOk n) k n =
      .ok { e with threadIndex := k, eventIndex := n } := by
  unfold rdGetDwarfEventLocked queryThread rdFindThreadByIndex
  rw [if_neg (by simp [(henv.get n).1]), hth]
  dsimp only
  rw [if_neg (by omega), if_neg (by simp [henv.allocOk n]), hes]
  simp only [Option.bind_some, he, hused, if_true, (henv.get n).2]

/-- The event loop over replies that are all in use. -/
theorem foldlM_writeDwarfEvent (henv : env.AllOk) (tid : ℤ) {reply : ℕ → DwarfEvent} {m : ℕ}
    (hget : ∀ n < m, rdGetDwarfEventLocked s (env.get n) (env.allocOk n) k n = .ok (reply n))
    (hused : ∀ n < m, (reply n).used = true) :
    (List.range m).foldlM (writeDwarfEvent s env tid k) ⟨[], []⟩ =
      .ok ⟨eventFile ((List.range m).map fun n => (reply n, env.slack n)),
        (List.range m).map fun n => dwarfRow (reply n)⟩ := by
  induction m with
  | zero => rfl
  | succ m ih =>
      have hbefore := ih (fun n hn => hget n (by omega)) fun n hn => hused n (by omega)
      rw [List.range_succ, List.foldlM_append, hbefore]
      simp only [List.foldlM_cons, List.foldlM_nil, bind_pure]
      change writeDwarfEvent s env tid k _ m = _
      unfold writeDwarfEvent
      rw [hget m (by omega)]
      dsimp only
      rw [if_neg (by simp [hused m (by omega)]), if_neg (by simp [henv.writeOk m])]
      simp [eventFile]

end Writer

/-! ## What the resolver gets -/

structure Resolver.Event.Shows (c : SessionCtl) (t : ℕ) (r : PtRegs) (env : HitEnv)
    (regs : Option PtRegs) (env' : HitEnv) (ev : Event) : Prop where
  targetIndex : ev.targetIndex = t
  seedPcOffset : c.targets[t]?.map (fun target => target.pcOffset.toNat) = some ev.seedPcOffset
  counters : ∃ a a', env.memAccess = some a ∧ env'.memAccess = some a' ∧
    ev.seedAccess = a.toNat ∧ ev.hitAccess = a'.toNat ∧ ev.delta = (reuseDelta a a').toNat ∧
    ev.bucket = rdLog2Bucket (reuseDelta a a')
  seed : r.userMode = true → r.sp ≠ 0 →
    ev.seedPc = r.pc.toNat ∧ ev.seed.Shows c.dwarfStackBytes env.user r
  reuse : ∀ r', regs = some r' → r'.userMode = true → r'.sp ≠ 0 →
    ev.reusePc = r'.pc.toNat ∧ ev.reuse.Shows c.dwarfStackBytes env'.user r'

theorem DwarfEvent.Joins.shows {c : SessionCtl} (hpos : 1 ≤ c.dwarfStackBytes)
    (hmax : c.dwarfStackBytes ≤ maxDwarfStackBytes) {t : ℕ} {r : PtRegs} {env env' : HitEnv}
    {regs : Option PtRegs} {e : DwarfEvent} (h : e.Joins c t r env regs env') (slack : Slack)
    (k n : ℕ) :
    ({ e with threadIndex := k, eventIndex := n }.offline slack).Shows c t r env regs env' := by
  refine ⟨h.targetIndex, ?_, ?_, ?_, ?_⟩
  · have hoff := h.seedPcOffset
    obtain ⟨target, htarget, he⟩ := Option.map_eq_some_iff.mp hoff
    rw [htarget, Option.map_some, he]
    rfl
  · refine ⟨e.seedAccess, e.hitAccess, h.seedAccess, h.hitAccess, rfl, rfl, ?_, ?_⟩
    · exact congrArg BitVec.toNat h.delta
    · exact h.bucket.trans (congrArg rdLog2Bucket h.delta)
  · intro huser hsp
    have hcap := snapshotOf_captures (u := env.user) huser hsp hpos hmax
    rw [← h.seed] at hcap
    exact ⟨congrArg BitVec.toNat (h.seedPc.trans hcap.pc), hcap.shows slack.seed⟩
  · rintro r' rfl huser hsp
    have hcap := snapshotOf_captures (u := env'.user) huser hsp hpos hmax
    rw [← h.reuse] at hcap
    exact ⟨congrArg BitVec.toNat h.reusePc, hcap.shows slack.reuse⟩

theorem DwarfEvent.Joins.inRange {s : Session} (hfit : s.FitsTypes) {k n : ℕ}
    (hk : k < s.threads.length) (hn : n < s.dwarfEventCapacity) {t : ℕ} {r : PtRegs}
    {env env' : HitEnv} {regs : Option PtRegs} {e : DwarfEvent}
    (h : e.Joins s.toSessionCtl t r env regs env') (htid : -2 ^ 31 ≤ e.tid ∧ e.tid < 2 ^ 31) :
    { e with threadIndex := k, eventIndex := n }.InRange := by
  have ht : t < s.targetCount := by
    obtain ⟨target, htarget, -⟩ := Option.map_eq_some_iff.mp h.seedPcOffset
    exact (List.getElem?_eq_some_iff.mp htarget).1
  have hbucket : e.bucket < 2 ^ 8 := by
    rw [h.bucket]
    exact (rdLog2Bucket_lt _).trans (by decide)
  refine ⟨hk.trans_le hfit.threads, hn.trans_le hfit.dwarfEventCapacity, hbucket, htid, ?_, ?_, ?_⟩
  · change e.targetIndex < 2 ^ 32
    rw [h.targetIndex]
    exact ht.trans_le hfit.targets
  · change e.seed.InRange
    rw [h.seed]
    exact snapshotOf_inRange _ _ _
  · change e.reuse.InRange
    rw [h.reuse]
    exact snapshotOf_inRange _ _ _

/-- Files of used events are read back whole. -/
theorem loadEvents_used {files : List (String × List (DwarfEvent × Slack))}
    (h : ∀ file ∈ files, ∀ e ∈ file.2, e.1.InRange ∧ e.1.used = true) :
    loadEvents (files.map fun file => (file.1, eventFile file.2)) =
      .ok ((files.flatMap Prod.snd).map fun e => e.1.offline e.2) := by
  rw [loadEvents_eventFile fun file hf e he => (h file hf e he).1, List.filter_eq_self.mpr]
  intro ev hev
  obtain ⟨e, he, rfl⟩ := List.mem_map.mp hev
  obtain ⟨file, hf, hfe⟩ := List.mem_flatMap.mp he
  simp [DwarfEvent.offline, (h file hf e hfe).2]

def DwarfEvent.placed (k n : ℕ) (e : DwarfEvent) : DwarfEvent :=
  { e with threadIndex := k, eventIndex := n }

/-- What the files of a thread are written from: the used entries of its event array, in order. -/
theorem exists_writtenEvents {s : Session} (hreach : s.Reachable) (hmode : s.callchainMode = .dwarf)
    (hfit : s.FitsTypes) {env : DwarfWriteEnv} (henv : env.AllOk) {k : ℕ} {th : Thread}
    (hth : s.threads[k]? = some th) {tgid : ℤ} {es : List SessionEvent} {l : Ledger}
    (htrail : Trail tgid es k s.toSessionCtl th l) :
    ∃ entry : ℕ → DwarfEvent,
      (∀ n < th.dwarfEventUsed, (th.dwarfEvents.bind fun arr => arr[n]?) = some (entry n) ∧
        ((entry n).placed k n).InRange ∧ (entry n).used = true ∧ (entry n).tid = th.tid ∧
        JoinedAt s.toSessionCtl tgid es k (l.seedAt n) (l.reuseAt n) (entry n)) ∧
      writeThreadDwarfEvents s env (threadStatsOf s k th) k =
        .ok ⟨eventFile ((List.range th.dwarfEventUsed).map fun n =>
            ((entry n).placed k n, env.slack n)),
          (List.range th.dwarfEventUsed).map fun n => dwarfRow ((entry n).placed k n)⟩ := by
  have hmem := List.mem_of_getElem? hth
  have hok := hreach.resultsOk hmem
  obtain ⟨arr, harr, hlen⟩ : ∃ arr, th.dwarfEvents = some arr ∧
      arr.length = s.dwarfEventCapacity := by
    have hsize := (hreach.shaped hmem).tables.2.2.2
    rw [if_pos hmode] at hsize
    exact Option.map_eq_some_iff.mp hsize
  -- the first `dwarf_event_used` entries are exactly the used ones
  let entry : ℕ → DwarfEvent := fun n => arr[n]?.getD .zero
  have hentry : ∀ n < th.dwarfEventUsed, arr[n]? = some (entry n) := by
    intro n hn
    have hlt : n < arr.length := by
      rw [hlen]
      exact hn.trans_le hok.event_fit
    simp only [entry, List.getElem?_eq_getElem hlt, Option.getD_some]
  have hused : ∀ n < th.dwarfEventUsed, (entry n).used = true := fun n hn =>
    ((hok.events arr harr n _ (hentry n hn)).1).mpr hn
  have hjoin : ∀ n < th.dwarfEventUsed, (entry n).tid = th.tid ∧
      JoinedAt s.toSessionCtl tgid es k (l.seedAt n) (l.reuseAt n) (entry n) := fun n hn =>
    htrail.events arr harr n (entry n) (hentry n hn) (hused n hn)
  have hcap : ∀ n < th.dwarfEventUsed, n < s.dwarfEventCapacity :=
    fun n hn => hn.trans_le hok.event_fit
  refine ⟨entry, ?_, ?_⟩
  · intro n hn
    obtain ⟨htid, hj⟩ := hjoin n hn
    refine ⟨by rw [harr]; exact hentry n hn, ?_, hused n hn, htid, hj⟩
    obtain ⟨t, r, env₁, i, regs, env₂, -, -, -, -, he⟩ := hj
    exact he.inRange hfit (List.getElem?_eq_some_iff.mp hth).1 (hcap n hn) (htid ▸ hfit.tid th hmem)
  · unfold writeThreadDwarfEvents
    rw [if_neg (by simp [henv.openBin]), if_neg (by simp [henv.openTxt])]
    apply foldlM_writeDwarfEvent henv
    · intro n hn
      exact rdGetDwarfEventLocked_eq henv hth harr (hcap n hn) (hentry n hn) (hused n hn)
    · intro n hn
      exact hused n hn

/-- In every run the resolver reads back, for each context, one event for each recorded hit that
found room. Event `n` is entry `n` of the context's event array. It shows two hits of that context:
their registers, counter values and stacks. The first seeded a slot, which kept that seed until the
second reported its reuse. The events stand in the order of the reuses and share no seed. A capture
keeps the longest readable stack, and any list of events survives its file. -/
theorem dwarf_snapshot_pipeline (tgid : ℤ) (es : List SessionEvent) (s : Session)
    (hs : (rdWpctlOpen tgid).run es = s) (hmode : s.callchainMode = .dwarf)
    (hpos : 1 ≤ s.dwarfStackBytes) (hmax : s.dwarfStackBytes ≤ maxDwarfStackBytes)
    (hfit : s.FitsTypes) (env : DwarfWriteEnv) (henv : env.AllOk) (path : String) (k : ℕ)
    (th : Thread) (hth : s.threads[k]? = some th) :
    (∀ u r, r.userMode = true → r.sp ≠ 0 →
      (rdCaptureDwarfSnapshot s.toSessionCtl th u (some r)).2.Captures s.dwarfStackBytes u r) ∧
    (∃ (files : DwarfFiles) (events : List Event) (seedAt reuseAt : ℕ → ℕ),
      writeThreadDwarfEvents s env (threadStatsOf s k th) k = .ok files ∧
      loadEvents [(path, files.bin)] = .ok events ∧
      events.length + th.dwarfEventDropped = th.hits ∧
      (∀ (n : ℕ) (ev : Event), events[n]? = some ev →
        ev.threadIndex = k ∧ ev.eventIndex = n ∧ ev.tid = th.tid ∧
        ∃ e t r env₁ i regs env₂, (th.dwarfEvents.bind fun arr => arr[n]?) = some e ∧
          e.used = true ∧ ev = (e.placed k n).offline (env.slack n) ∧
          es[seedAt n]? = some (.hit k (.bp t (some r) env₁)) ∧
          es[reuseAt n]? = some (.hit k (.wp i regs env₂)) ∧ seedAt n < reuseAt n ∧
          SeedKept tgid es k i (seedAt n) (reuseAt n) e.heldSeed ∧
          ev.Shows s.toSessionCtl t r env₁ regs env₂) ∧
      ∀ m n, m < n → n < events.length → reuseAt m < reuseAt n ∧ seedAt m ≠ seedAt n) ∧
    ∀ files : List (String × List (DwarfEvent × Slack)),
      (∀ file ∈ files, ∀ e ∈ file.2, e.1.InRange ∧ e.1.used = true) →
      loadEvents (files.map fun file => (file.1, eventFile file.2)) =
        .ok ((files.flatMap Prod.snd).map fun e => e.1.offline e.2) := by
  have hreach : s.Reachable := ⟨tgid, es, hs⟩
  obtain ⟨l, htrail⟩ : ∃ l, Trail tgid es k s.toSessionCtl th l := by
    subst hs
    exact trail_run tgid es hth hmode
  refine ⟨?_, ?_, fun files h => loadEvents_used h⟩
  · intro u r huser hsp
    rw [rdCaptureDwarfSnapshot_snd]
    exact snapshotOf_captures huser hsp hpos hmax
  · obtain ⟨entry, hentry, hwrite⟩ := exists_writtenEvents hreach hmode hfit henv hth htrail
    refine ⟨_, _, l.seedAt, l.reuseAt, hwrite, @loadEvents_used [(path, _)] ?_, ?_, ?_, ?_⟩
    · intro file hf e he
      obtain rfl := List.mem_singleton.mp hf
      obtain ⟨n, hn, rfl⟩ := List.mem_map.mp he
      obtain ⟨-, hrange, hused, -⟩ := hentry n (List.mem_range.mp hn)
      exact ⟨hrange, hused⟩
    · simpa using (hreach.resultsOk (List.mem_of_getElem? hth)).event_count hmode
    · intro n ev hev
      simp only [List.flatMap_cons, List.flatMap_nil, List.append_nil, List.map_map] at hev
      obtain ⟨m, hm, rfl⟩ := Option.map_eq_some_iff.mp ((List.getElem?_map ..).symm.trans hev)
      obtain ⟨hlt, rfl⟩ : n < th.dwarfEventUsed ∧ n = m := by
        rw [List.getElem?_eq_some_iff] at hm
        simpa using hm
      obtain ⟨hget, -, hused, htid, t, r, env₁, i, regs, env₂, hp, hq, hpq, hkept, he⟩ := hentry n hlt
      exact ⟨rfl, rfl, htid, entry n, t, r, env₁, i, regs, env₂, hget, hused, rfl, hp, hq, hpq, hkept,
        he.shows hpos hmax (env.slack n) k n⟩
    · intro m n hmn hn
      have hlt : n < th.dwarfEventUsed := by simpa using hn
      exact ⟨htrail.ordered m n hmn hlt, htrail.distinct m n hmn hlt⟩

def dwarfWriteEnv : DwarfWriteEnv where
  openBin := true
  openTxt := true
  get := fun _ => ⟨true, true⟩
  allocOk := fun _ => true
  writeOk := fun _ => true
  slack := fun _ => ⟨fun _ => 0, fun _ => 0⟩

theorem hitRun_fitsTypes : ((rdWpctlOpen 1).run (hitRun 2)).FitsTypes := by
  rw [hitRun_threads 2 (by decide)]
  refine ⟨by simp, by decide, by decide, ?_⟩
  intro th hth
  rw [List.mem_singleton.mp hth, (hitThread_spec 2 (by decide)).1]
  decide

/-- The only event of the recorded run joins the load at event 4 to the reuse at event 6. -/
theorem dwarf_snapshot_pipeline_small : ∃ (files : DwarfFiles) (ev : Event) (e : DwarfEvent),
    writeThreadDwarfEvents ((rdWpctlOpen 1).run (hitRun 2)) dwarfWriteEnv
      (threadStatsOf ((rdWpctlOpen 1).run (hitRun 2)) 0 (hitThread 2)) 0 = .ok files ∧
    loadEvents [("rd2.t7.dwarf.raw.bin", files.bin)] = .ok [ev] ∧
    (hitThread 2).dwarfEvents = some [e] ∧
    SeedKept 1 (hitRun 2) 0 0 4 6 e.heldSeed ∧
    ev.tid = 7 ∧ ev.seedAccess = 5 ∧ ev.hitAccess = 9 ∧ ev.delta = 3 := by
  have hrun := hitRun_threads 2 (by decide)
  obtain ⟨htid, hhits, -⟩ := hitThread_spec 2 (by decide)
  obtain ⟨e, hevents, ⟨-, hhit, -⟩, -, hdropped⟩ := hitThread_events
  obtain ⟨-, ⟨files, events, seedAt, reuseAt, hfiles, hload, hcount, hall, -⟩, -⟩ :=
    dwarf_snapshot_pipeline 1 (hitRun 2) ((rdWpctlOpen 1).run (hitRun 2)) rfl (by rw [hrun]; rfl)
      (by rw [hrun]; decide) (by rw [hrun]; decide) hitRun_fitsTypes dwarfWriteEnv
      ⟨rfl, rfl, fun _ => ⟨rfl, rfl⟩, fun _ => rfl, fun _ => rfl⟩ "rd2.t7.dwarf.raw.bin" 0
      (hitThread 2) (by rw [hrun]; rfl)
  obtain ⟨ev, rfl⟩ : ∃ ev, events = [ev] := by
    rw [← List.length_eq_one_iff]
    omega
  obtain ⟨-, -, ht, e', t, r, env₁, i, regs, env₂, he', -, hev, hp, hq, hpq, hkept, hshows⟩ :=
    hall 0 ev rfl
  obtain rfl : e = e' := by
    rw [hevents] at he'
    exact Option.some.inj he'
  obtain ⟨a, a', ha, ha', hseed, hreuse, hdelta, -⟩ := hshows.counters
  have hlast : ev.hitAccess = 9 := by
    rw [hev]
    exact congrArg BitVec.toNat hhit
  have hplt := (List.getElem?_eq_some_iff.mp hp).1
  have hqlt := (List.getElem?_eq_some_iff.mp hq).1
  change seedAt 0 < 7 at hplt
  change reuseAt 0 < 7 at hqlt
  generalize seedAt 0 = p at hp hpq hkept hplt
  generalize reuseAt 0 = q at hq hpq hkept hqlt
  -- the run has one breakpoint hit, and only one report with reading 9
  obtain ⟨rfl, rfl⟩ : p = 4 ∧ a = 5 := by
    interval_cases p <;> cases hp
    exact ⟨rfl, (Option.some.inj ha).symm⟩
  obtain ⟨rfl, rfl, rfl⟩ : q = 6 ∧ i = 0 ∧ a' = 9 := by
    interval_cases q <;> cases hq
    · obtain rfl := Option.some.inj ha'
      rw [hlast] at hreuse
      cases hreuse
    · exact ⟨rfl, rfl, (Option.some.inj ha').symm⟩
  exact ⟨files, ev, e, hfiles, hload, hevents, hkept, ht.trans htid, hseed, hlast, hdelta⟩

end RdSpeTool
