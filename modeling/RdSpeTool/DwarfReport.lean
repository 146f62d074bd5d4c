import RdSpeTool.PairContexts
import RdSpeTool.RunReport

/-!
# From a session to the pair context report

The event files that `write_info` leaves are what the resolver groups. Each event it counts is a
breakpoint hit and a later watchpoint hit of one context, with the stacks that the two saw.
-/

namespace RdSpeTool

open ByteRecords KeyedFiles Resolver

section Files

variable {s : Session} {env : ReportEnv} {es : List SessionEvent}

/-- The context of an event and the positions of its two hits in the run. -/
structure EventOrigin where
  context : ℕ
  seedAt : ℕ
  reuseAt : ℕ

/-- Within a context events come in the order of their reuses, and no two share a hit. -/
def EventOrigin.Apart (a b : EventOrigin) : Prop :=
  a.seedAt ≠ b.seedAt ∧ a.reuseAt ≠ b.reuseAt ∧ (a.context = b.context → a.reuseAt < b.reuseAt)

/-- What the event file of context `k` holds: its used events in order, with their hits. -/
structure HoldsEvents (tgid : ℤ) (es : List SessionEvent) (s : Session) (k : ℕ) (files : DwarfFiles)
    (events : List ((DwarfEvent × Slack) × EventOrigin)) : Prop where
  bin : files.bin = eventFile (events.map Prod.fst)
  rows : files.txt.length = events.length
  joined : ∀ e ∈ events, e.1.1.InRange ∧ e.1.1.used = true ∧ e.2.context = k ∧
    ∃ (th : Thread) (e₀ : DwarfEvent) (n : ℕ), s.threads[k]? = some th ∧
      JoinedAt s.toSessionCtl tgid es k e.2.seedAt e.2.reuseAt e₀ ∧ e.1.1 = e₀.placed k n
  apart : events.Pairwise fun a b => a.2.Apart b.2

theorem holdsEvents (hreach : s.Reachable) (hmode : s.callchainMode = .dwarf) (hfit : s.FitsTypes)
    (henv : env.AllOk) {k : ℕ} {th : Thread} (hth : s.threads[k]? = some th) {tgid : ℤ} {l : Ledger}
    (htrail : Trail tgid es k s.toSessionCtl th l) :
    ∃ events, HoldsEvents tgid es s k (eventFiles s env k th) events ∧
      events.length = th.dwarfEventUsed := by
  obtain ⟨entry, hentry, hwrite⟩ := exists_writtenEvents hreach hmode hfit (henv.dwarf k) hth htrail
  have hfiles : eventFiles s env k th =
      ⟨eventFile ((List.range th.dwarfEventUsed).map fun n =>
        ((entry n).placed k n, (env.dwarf k).slack n)),
        (List.range th.dwarfEventUsed).map fun n => dwarfRow ((entry n).placed k n)⟩ := by
    unfold eventFiles
    rw [hwrite]
    rfl
  refine ⟨(List.range th.dwarfEventUsed).map fun n => (((entry n).placed k n,
    (env.dwarf k).slack n), ⟨k, l.seedAt n, l.reuseAt n⟩), ⟨?_, ?_, ?_, ?_⟩, by simp⟩
  · rw [hfiles, List.map_map]
    rfl
  · rw [hfiles]
    simp
  · intro e he
    obtain ⟨n, hn, rfl⟩ := List.mem_map.mp he
    obtain ⟨-, hrange, hused, -, hjoined⟩ := hentry n (List.mem_range.mp hn)
    exact ⟨hrange, hused, rfl, th, entry n, n, hth, hjoined, rfl⟩
  · rw [List.pairwise_map]
    refine List.pairwise_lt_range.imp_of_mem fun {m n} _ hn hmn => ?_
    have hlt := List.mem_range.mp hn
    have hreuse := htrail.ordered m n hmn hlt
    exact ⟨htrail.distinct m n hmn hlt, hreuse.ne, fun _ => hreuse⟩

/-- Hits of different contexts are different events of the run. -/
theorem JoinedAt.apart {c : SessionCtl} {tgid : ℤ} {k k' p q p' q' : ℕ} {e e' : DwarfEvent}
    (h : JoinedAt c tgid es k p q e) (h' : JoinedAt c tgid es k' p' q' e') (hk : k ≠ k') :
    p ≠ p' ∧ q ≠ q' := by
  obtain ⟨t, r, env, i, regs, env', hp, hq, -⟩ := h
  obtain ⟨t', r', env₁, i', regs', env₁', hp', hq', -⟩ := h'
  refine ⟨?_, ?_⟩
  · rintro rfl
    rw [hp] at hp'
    cases hp'
    exact hk rfl
  · rintro rfl
    rw [hq] at hq'
    cases hq'
    exact hk rfl

/-- The events a resolver loads from the event files of different contexts in any order. -/
theorem loadEvents_files {tgid : ℤ} {files : List (ℤ × DwarfFiles)} {context : ℤ × DwarfFiles → ℕ}
    (h : ∀ f ∈ files, ∃ events, HoldsEvents tgid es s (context f) f.2 events)
    (hapart : files.Pairwise fun f g => context f ≠ context g) (path : ℤ → String) :
    ∃ loaded : List ((DwarfEvent × Slack) × EventOrigin),
      loadEvents (files.map fun f => (path f.1, f.2.bin)) =
        .ok (loaded.map fun e => e.1.1.offline e.1.2) ∧
      loaded.length = (files.map fun f => f.2.txt.length).sum ∧
      (loaded.Pairwise fun a b => a.2.Apart b.2) ∧
      ∀ e ∈ loaded, ∃ f ∈ files, ∃ events, HoldsEvents tgid es s (context f) f.2 events ∧
        e ∈ events := by
  choose! content hcontent using h
  have hmap : (files.map fun f => (path f.1, f.2.bin)) =
      (files.map fun f => (path f.1, (content f).map Prod.fst)).map
        fun f => (f.1, eventFile f.2) := by
    rw [List.map_map]
    exact List.map_congr_left fun f hf => congrArg (Prod.mk _) (hcontent f hf).bin
  have hjoined : ∀ f ∈ files, ∀ e ∈ content f, e.2.context = context f ∧
      ∃ e₀, JoinedAt s.toSessionCtl tgid es (context f) e.2.seedAt e.2.reuseAt e₀ := by
    intro f hf e he
    obtain ⟨-, -, hk, th, e₀, n, -, hj, -⟩ := (hcontent f hf).joined e he
    exact ⟨hk, e₀, hj⟩
  refine ⟨files.flatMap content, ?_, ?_, ?_, ?_⟩
  · rw [hmap, loadEvents_used]
    · congr 1
      simp only [List.flatMap_map, List.map_flatMap, List.map_map]
      rfl
    · intro file hfile e he
      obtain ⟨f, hf, rfl⟩ := List.mem_map.mp hfile
      obtain ⟨e', he', rfl⟩ := List.mem_map.mp he
      obtain ⟨hrange, hused, -⟩ := (hcontent f hf).joined e' he'
      exact ⟨hrange, hused⟩
  · rw [List.length_flatMap]
    exact congrArg List.sum (List.map_congr_left fun f hf => (hcontent f hf).rows.symm)
  · rw [List.pairwise_flatMap]
    refine ⟨fun f hf => (hcontent f hf).apart, hapart.imp_of_mem fun {f g} hf hg hfg a ha b hb => ?_⟩
    obtain ⟨hka, e, hja⟩ := hjoined f hf a ha
    obtain ⟨hkb, e', hjb⟩ := hjoined g hg b hb
    obtain ⟨hseed, hreuse⟩ := hja.apart hjb hfg
    exact ⟨hseed, hreuse, fun hk => absurd (hka.symm.trans (hk.trans hkb)) hfg⟩
  · intro e he
    obtain ⟨f, hf, he⟩ := List.mem_flatMap.mp he
    exact ⟨f, hf, content f, hcontent f hf, he⟩

theorem map_mapIdx_eq {α β γ : Type} {l : List α} {f : ℕ → α → β} {g : β → γ} {h : α → γ}
    (hf : ∀ i a, l[i]? = some a → g (f i a) = h a) : (l.mapIdx f).map g = l.map h := by
  apply List.ext_getElem?
  intro i
  rw [List.getElem?_map, List.getElem?_mapIdx, List.getElem?_map]
  cases hi : l[i]? with
  | none => rfl
  | some a => exact congrArg some (hf i a hi)

/-- How many events the files of a report hold, context by context. -/
theorem Report.Covers.dwarf_counts {r : Report} (h : r.Covers s .dwarf env s.threads.length)
    (hused : ∀ i th, s.threads[i]? = some th →
      (eventFiles s env i th).txt.length = th.dwarfEventUsed) :
    r.dwarf.map (fun f => (f.1, f.2.txt.length)) =
      putAll [] (s.threads.map fun th => (th.tid, th.dwarfEventUsed)) := by
  have hdwarf := h.dwarf
  rw [List.take_length, if_pos rfl] at hdwarf
  rw [hdwarf, map_putAll fun files : DwarfFiles => files.txt.length, List.map_nil]
  congr 1
  exact map_mapIdx_eq fun i th hi => congrArg (Prod.mk th.tid) (hused i th hi)

theorem Report.Covers.totals_eq {mode : CallchainMode} {r : Report}
    (h : r.Covers s mode env s.threads.length) :
    r.totals.hits = (s.threads.map Thread.hits).sum ∧
      r.totals.dwarfEventDropped = (s.threads.map Thread.dwarfEventDropped).sum := by
  rw [h.totals, h.lines, List.take_length]
  exact ⟨congrArg List.sum (map_mapIdx_eq fun _ _ _ => rfl),
    congrArg List.sum (map_mapIdx_eq fun _ _ _ => rfl)⟩

theorem sum_add_sum {α : Type} {l : List α} {f g h : α → ℕ} (hl : ∀ a ∈ l, f a + g a = h a) :
    (l.map f).sum + (l.map g).sum = (l.map h).sum := by
  rw [← List.sum_map_add]
  exact congrArg List.sum (List.map_congr_left hl)

end Files

/-- From any run to the report: the resolver loads the event files in any order, and counts the hits
that found room, except those of contexts whose file a later context of the same tid replaced. Each
counted event is a breakpoint hit and a later watchpoint hit of one context, which no other event
uses, filed under the stacks that unwind from what the two hits saw. -/
theorem dwarf_report_resolves (tgid : ℤ) (es : List SessionEvent) (s : Session)
    (hs : (rdWpctlOpen tgid).run es = s) (hmode : s.callchainMode = .dwarf)
    (hpos : 1 ≤ s.dwarfStackBytes) (hmax : s.dwarfStackBytes ≤ maxDwarfStackBytes)
    (hfit : s.FitsTypes) (env : ReportEnv) (henv : env.AllOk) (r : Report)
    (hr : writeReport s .dwarf env = .ok r) (files : List (ℤ × DwarfFiles))
    (hfiles : files.Perm r.dwarf) (path : ℤ → String) :
    ∃ (events : List Event) (origins : List (Event × EventOrigin)),
      loadEvents (files.map fun f => (path f.1, f.2.bin)) = .ok events ∧
      events = origins.map Prod.fst ∧
      events.length + r.totals.dwarfEventDropped ≤ r.totals.hits ∧
      (events.length + r.totals.dwarfEventDropped = r.totals.hits ↔
        s.threads.Pairwise fun th th' => th.tid = th'.tid → th.dwarfEventUsed = 0) ∧
      (∀ x ∈ origins, ∃ (th : Thread) (t : ℕ) (regs : PtRegs) (env₁ : HitEnv) (i : ℕ)
        (regs' : Option PtRegs) (env₂ : HitEnv) (held : HeldSeed),
        s.threads[x.2.context]? = some th ∧
          es[x.2.seedAt]? = some (.hit x.2.context (.bp t (some regs) env₁)) ∧
          es[x.2.reuseAt]? = some (.hit x.2.context (.wp i regs' env₂)) ∧
          x.2.seedAt < x.2.reuseAt ∧
          SeedKept tgid es x.2.context i x.2.seedAt x.2.reuseAt held ∧
          x.1.Shows s.toSessionCtl t regs env₁ regs' env₂) ∧
      (origins.Pairwise fun a b => a.2.Apart b.2) ∧
      ∀ fdes symbols normalizePath opts report,
        pairReport fdes symbols normalizePath opts events = some report →
          (report.entries.map PairEntry.totalCount).sum = events.length ∧
          ∀ key, key ∈ report.entries.map PairEntry.key ↔
            ∃ ev ∈ events, eventKey fdes symbols.loadBias ev = key := by
  have hreach : s.Reachable := ⟨tgid, es, hs⟩
  have hcovers := writeReport_covers hr
  have hholds : ∀ i th, s.threads[i]? = some th → ∃ events,
      HoldsEvents tgid es s i (eventFiles s env i th) events ∧
        events.length = th.dwarfEventUsed := by
    intro i th hth
    obtain ⟨l, htrail⟩ : ∃ l, Trail tgid es i s.toSessionCtl th l := by
      subst hs
      exact trail_run tgid es hth hmode
    exact holdsEvents hreach hmode hfit henv hth htrail
  have hdwarf := hcovers.dwarf
  rw [List.take_length, if_pos rfl] at hdwarf
  -- every file belongs to one context, and different files to different ones
  have hfile : ∀ f ∈ files, ∃ k, (∃ th, s.threads[k]? = some th ∧ th.tid = f.1) ∧
      ∃ events, HoldsEvents tgid es s k f.2 events := by
    rintro ⟨tid, f⟩ hf
    have hmem := hfiles.mem_iff.mp hf
    rw [hdwarf, mem_putAll_mapIdx] at hmem
    obtain ⟨i, th, hth, rfl, rfl, -⟩ := hmem
    obtain ⟨events, hevents, -⟩ := hholds i th hth
    exact ⟨i, ⟨th, hth, rfl⟩, events, hevents⟩
  have hnames : files.Pairwise fun f g => f.1 ≠ g.1 := by
    rw [hfiles.pairwise_iff fun h => Ne.symm h, hdwarf]
    exact pairwise_putAll List.Pairwise.nil _
  choose! context hcontext using hfile
  have hapart : files.Pairwise fun f g => context f ≠ context g := by
    refine hnames.imp_of_mem fun {f g} hf hg hne heq => hne ?_
    obtain ⟨⟨th, hth, htid⟩, -⟩ := hcontext f hf
    obtain ⟨⟨th', hth', htid'⟩, -⟩ := hcontext g hg
    rw [heq, hth'] at hth
    rw [← htid, ← htid', Option.some.inj hth]
  obtain ⟨loaded, hload, hlen, hpairwise, hloaded⟩ :=
    loadEvents_files (fun f hf => (hcontext f hf).2) hapart path
  -- the files hold what the surviving contexts recorded
  have hcounts := hcovers.dwarf_counts fun i th hth => by
    obtain ⟨events, hevents, hused⟩ := hholds i th hth
    exact hevents.rows.trans hused
  have hweight : loaded.length =
      weight id (putAll [] (s.threads.map fun th => (th.tid, th.dwarfEventUsed))) := by
    rw [hlen, (hfiles.map fun f => f.2.txt.length).sum_eq, ← hcounts, weight, List.map_map]
    rfl
  have hle : loaded.length ≤ (s.threads.map Thread.dwarfEventUsed).sum := by
    have hsurviving := weight_surviving_le id (s.threads.map fun th => (th.tid, th.dwarfEventUsed))
    rw [hweight, weight_putAll]
    simp only [List.filter_nil, weight, List.map_nil, List.sum_nil, Nat.zero_add, List.map_map]
      at hsurviving ⊢
    exact hsurviving
  have heq := weight_threads s.threads Thread.dwarfEventUsed id
  rw [← hweight] at heq
  simp only [id] at heq
  obtain ⟨hhits, hdropped⟩ := hcovers.totals_eq
  have hsum := sum_add_sum fun th hth => (hreach.resultsOk hth).event_count hmode
  refine ⟨_, loaded.map fun e => (e.1.1.offline e.1.2, e.2), hload, ?_, ?_, ?_, ?_, ?_, ?_⟩
  · rw [List.map_map]
    rfl
  · rw [List.length_map, hhits, hdropped, ← hsum]
    exact Nat.add_le_add_right hle _
  · rw [List.length_map, hhits, hdropped, ← hsum, Nat.add_right_cancel_iff]
    exact heq
  · intro x hx
    obtain ⟨e, he, rfl⟩ := List.mem_map.mp hx
    obtain ⟨f, -, events, hevents, hmem⟩ := hloaded e he
    obtain ⟨-, -, hk, th, e₀, n, hth, hjoined, heq⟩ := hevents.joined e hmem
    obtain ⟨t, regs, env₁, i, regs', env₂, hp, hq, hpq, hkept, hjoins⟩ := hjoined
    rw [← hk] at hth hp hq hkept
    refine ⟨th, t, regs, env₁, i, regs', env₂, e₀.heldSeed, hth, hp, hq, hpq, hkept, ?_⟩
    dsimp only
    rw [heq]
    exact hjoins.shows hpos hmax e.1.2 _ n
  · rw [List.pairwise_map]
    exact hpairwise
  · intro fdes symbols normalizePath opts report hreport
    obtain ⟨unsorted, hu, hentries⟩ := pairReport_entries hreport
    have hperm : report.entries.Perm unsorted := hentries ▸ Ranking.ranked_perm _ _
    refine ⟨?_, fun key => ?_⟩
    · rw [(hperm.map PairEntry.totalCount).sum_eq, hu.total]
    · rw [(hperm.map PairEntry.key).mem_iff, hu.keys, OrderedGroups.mem_firsts, List.mem_map]

theorem dwarf_report_resolves_small : ∃ r events,
    writeReport ((rdWpctlOpen 1).run (hitRun 2)) .dwarf smallReportEnv = .ok r ∧
      loadEvents (r.dwarf.map fun f => ("rd2.dwarf.raw.bin", f.2.bin)) = .ok events ∧
      events.length = 1 ∧ r.totals.hits = 1 := by
  have hrun := hitRun_threads 2 (by decide)
  obtain ⟨r, hr⟩ := @writeReport_returns ((rdWpctlOpen 1).run (hitRun 2)) .dwarf smallReportEnv
    ⟨1, hitRun 2, rfl⟩ smallReportEnv_allOk
  obtain ⟨events, origins, hload, -, -, hcount, -⟩ := dwarf_report_resolves 1 (hitRun 2)
    ((rdWpctlOpen 1).run (hitRun 2)) rfl (by rw [hrun]; rfl) (by rw [hrun]; decide)
    (by rw [hrun]; decide) hitRun_fitsTypes smallReportEnv smallReportEnv_allOk r hr r.dwarf
    (List.Perm.refl _) fun _ => "rd2.dwarf.raw.bin"
  obtain ⟨hhits, hdropped⟩ := (writeReport_covers hr).totals_eq
  obtain ⟨-, -, -, -, hnone⟩ := hitThread_events
  rw [hrun] at hhits hdropped hcount
  have hone : r.totals.hits = 1 := by
    rw [hhits, List.map_singleton, List.sum_singleton]
    exact (hitThread_spec 2 (by decide)).2.1
  have hzero : r.totals.dwarfEventDropped = 0 := by
    rw [hdropped, List.map_singleton, List.sum_singleton]
    exact hnone
  have hall := hcount.mpr (List.pairwise_singleton _ _)
  exact ⟨r, events, hr, hload, by omega, hone⟩

end RdSpeTool
