import RdSpeTool.ContextIntegrity
import RdSpeTool.DwarfPipeline

/-!
# The report of a run

`write_info` lists every context of the session with its counters, adds the counters up and writes
the files of each context: two histograms, and the context table or the raw events where call
contexts were captured.
-/

namespace RdSpeTool

open KeyedFiles ProbeTable

/-- One line of `<name>.rd2.t<tid>.contexts.txt`; the columns behind the depth hold zero. -/
structure ContextRow where
  contextId : ℕ
  depth : ℕ
  ips : List U64
  deriving DecidableEq

def contextRow (contextId : ℕ) (ips : List U64) : ContextRow :=
  ⟨contextId, ips.length, (List.range maxCallchainDepth).map fun i => ips[i]?.getD 0⟩

structure ReportEnv extends WriteEnv where
  openContexts : ℕ → Bool
  context : ℕ → ℕ → UserCopy
  dwarf : ℕ → DwarfWriteEnv

structure ReportEnv.AllOk (env : ReportEnv) : Prop where
  write : env.toWriteEnv.AllOk
  openContexts : ∀ i, env.openContexts i = true
  context : ∀ i n, (env.context i n).fromUser = true ∧ (env.context i n).toUser = true
  dwarf : ∀ i, (env.dwarf i).AllOk

inductive ReportError
  | histogram (e : WriteError)
  | openContexts (tid : ℤ)
  | context (ret : ℤ)
  | dwarf (e : DwarfWriteError)

def ReportError.what (name : String) (strerror : ℤ → String) : ReportError → String
  | histogram e => e.what name strerror
  | openContexts tid => "cannot open " ++ name ++ ".rd2.t" ++ toString tid ++ ".contexts.txt"
  | context ret => "RDKIOC_GET_CONTEXT_ENTRY failed: " ++ strerror ret
  | dwarf e => e.what name strerror

def writeContext (s : Session) (env : ReportEnv) (threadIndex : ℕ) (rows : List ContextRow)
    (n : ℕ) : Except ReportError (List ContextRow) :=
  match rdGetContextLocked s (env.context threadIndex (n + 1)) threadIndex (n + 1) with
  | .error ret => .error (.context ret)
  | .ok req => .ok (if req.used = false then rows else rows ++ [contextRow req.contextId req.ips])

def writeThreadContexts (s : Session) (env : ReportEnv) (tid : ℤ) (threadIndex : ℕ) :
    Except ReportError (List ContextRow) :=
  if env.openContexts threadIndex = false then .error (.openContexts tid)
  else (List.range maxContexts).foldlM (writeContext s env threadIndex) []

structure ReportTotals where
  seeds : ℕ
  hits : ℕ
  evictions : ℕ
  dropped : ℕ
  pairHistUsed : ℕ
  pairHistDropped : ℕ
  contextUsed : ℕ
  contextDropped : ℕ
  callchainFailed : ℕ
  callchainTruncated : ℕ
  dwarfEventUsed : ℕ
  dwarfEventDropped : ℕ
  dwarfStackCopyFailed : ℕ
  deriving DecidableEq

def ReportTotals.zero : ReportTotals := ⟨0, 0, 0, 0, 0, 0, 0, 0, 0, 0, 0, 0, 0⟩

def ReportTotals.add (t : ReportTotals) (stats : ThreadStats) : ReportTotals where
  seeds := t.seeds + stats.reservoirAccepted
  hits := t.hits + stats.hits
  evictions := t.evictions + stats.evictions
  dropped := t.dropped + stats.dropped
  pairHistUsed := t.pairHistUsed + stats.pairHistUsed
  pairHistDropped := t.pairHistDropped + stats.pairHistDropped
  contextUsed := t.contextUsed + stats.contextUsed
  contextDropped := t.contextDropped + stats.contextDropped
  callchainFailed := t.callchainFailed + stats.callchainFailed
  callchainTruncated := t.callchainTruncated + stats.callchainTruncated
  dwarfEventUsed := t.dwarfEventUsed + stats.dwarfEventUsed
  dwarfEventDropped := t.dwarfEventDropped + stats.dwarfEventDropped
  dwarfStackCopyFailed := t.dwarfStackCopyFailed + stats.dwarfStackCopyFailed

/-- The `thread=` lines and the totals of `<name>.rd2.info`, and the other files by tid. -/
structure Report where
  lines : List ThreadStats
  totals : ReportTotals
  files : ResultFiles
  contexts : List (ℤ × List ContextRow)
  dwarf : List (ℤ × DwarfFiles)

def reportContexts (s : Session) (mode : CallchainMode) (env : ReportEnv) (stats : ThreadStats)
    (i : ℕ) (files : List (ℤ × List ContextRow)) :
    Except ReportError (List (ℤ × List ContextRow)) :=
  if mode = .fp then
    (writeThreadContexts s env stats.tid i).map fun rows => put files (stats.tid, rows)
  else .ok files

def reportDwarf (s : Session) (mode : CallchainMode) (env : ReportEnv) (stats : ThreadStats)
    (i : ℕ) (files : List (ℤ × DwarfFiles)) : Except ReportError (List (ℤ × DwarfFiles)) :=
  if mode = .dwarf then
    ((writeThreadDwarfEvents s (env.dwarf i) stats i).mapError .dwarf).map
      fun events => put files (stats.tid, events)
  else .ok files

def reportThread (s : Session) (mode : CallchainMode) (env : ReportEnv) (r : Report) (i : ℕ) :
    Except ReportError Report :=
  match rdGetThreadStatsLocked s (env.stats i) i with
  | .error ret => .error (.histogram (.threadStats ret))
  | .ok stats => do
      let hist ← (writeThreadHistograms s env.toWriteEnv stats.tid i).mapError .histogram
      let pair ← (writeThreadPairHistograms s env.toWriteEnv stats.tid i).mapError .histogram
      let contexts ← reportContexts s mode env stats i r.contexts
      let dwarf ← reportDwarf s mode env stats i r.dwarf
      .ok ⟨r.lines ++ [stats], r.totals.add stats,
        ⟨put r.files.hist (stats.tid, hist), put r.files.pair (stats.tid, pair)⟩, contexts, dwarf⟩

def writeReport (s : Session) (mode : CallchainMode) (env : ReportEnv) :
    Except ReportError Report :=
  match rdGetLayoutLocked s env.layout with
  | .error ret => .error (.histogram (.layout ret))
  | .ok layout =>
      (List.range layout.threadCount).foldlM (reportThread s mode env) ⟨[], .zero, ⟨[], []⟩, [], []⟩

/-! ## The files of one context -/

def contextEntryRows (contextId : ℕ) (e : ContextEntry) : List ContextRow :=
  if e.used then [contextRow contextId e.ips] else []

def threadContextRows (th : Thread) : List ContextRow :=
  (List.range maxContexts).flatMap fun n =>
    ((th.contexts[n]?).map (contextEntryRows (n + 1))).getD []

theorem mapError_eq_ok {ε ε' α : Type} {f : ε → ε'} {x : Except ε α} {a : α} :
    x.mapError f = .ok a ↔ x = .ok a := by
  cases x <;> simp [Except.mapError]

theorem map_eq_ok {ε α β : Type} {f : α → β} {x : Except ε α} {b : β} :
    x.map f = .ok b ↔ ∃ a, x = .ok a ∧ f a = b := by
  cases x <;> simp [Except.map]

theorem bind_eq_ok {ε α β : Type} {f : α → Except ε β} {x : Except ε α} {b : β} :
    (x >>= f) = .ok b ↔ ∃ a, x = .ok a ∧ f a = .ok b := by
  cases x with
  | error e => simp [bind, Except.bind]
  | ok a => simp [bind, Except.bind]

/-- A loop over the first `n + 1` indices ends with the round of `n`. -/
theorem foldlM_range_succ {ε β : Type} {f : β → ℕ → Except ε β} {b r : β} {n : ℕ} :
    (List.range (n + 1)).foldlM f b = .ok r ↔
      ∃ m, (List.range n).foldlM f b = .ok m ∧ f m n = .ok r := by
  rw [List.range_succ, List.foldlM_append]
  simp only [List.foldlM_cons, List.foldlM_nil, bind_pure]
  exact bind_eq_ok

section Rows

variable {s : Session} {env : ReportEnv} {tid : ℤ} {i : ℕ} {th : Thread}

theorem rdGetContextLocked_rows (hth : s.threads[i]? = some th) {u : UserCopy} {n : ℕ}
    {req : ContextReq} (h : rdGetContextLocked s u i (n + 1) = .ok req) :
    (if req.used = false then [] else [contextRow req.contextId req.ips]) =
      ((th.contexts[n]?).map (contextEntryRows (n + 1))).getD [] := by
  obtain ⟨th', hth', hreq⟩ := queryThread_ok h
  obtain rfl : th = th' := Option.some.inj (hth.symm.trans hth')
  by_cases hbad : n + 1 = 0 ∨ n + 1 > maxContexts
  · rw [if_pos hbad] at hreq
    cases hreq
  rw [if_neg hbad, Nat.add_sub_cancel] at hreq
  cases he : th.contexts[n]? with
  | none =>
      rw [he] at hreq
      rw [← Except.ok.inj hreq]
      rfl
  | some e =>
      rw [he] at hreq
      dsimp only at hreq
      by_cases hu : e.used = true
      · rw [if_pos hu] at hreq
        rw [← Except.ok.inj hreq]
        simp [contextEntryRows, hu]
      · rw [if_neg hu] at hreq
        rw [← Except.ok.inj hreq]
        simp [contextEntryRows, hu]

theorem writeThreadContexts_ok (hth : s.threads[i]? = some th) {rows : List ContextRow}
    (h : writeThreadContexts s env tid i = .ok rows) : rows = threadContextRows th := by
  have hloop : ∀ n rows, (List.range n).foldlM (writeContext s env i) [] = .ok rows →
      rows = (List.range n).flatMap fun n =>
        ((th.contexts[n]?).map (contextEntryRows (n + 1))).getD [] := by
    intro n
    induction n with
    | zero => exact fun rows h => (Except.ok.inj h).symm
    | succ n ih =>
        intro rows h
        obtain ⟨before, hbefore, hround⟩ := foldlM_range_succ.mp h
        unfold writeContext at hround
        cases hq : rdGetContextLocked s (env.context i (n + 1)) i (n + 1) with
        | error ret =>
            rw [hq] at hround
            cases hround
        | ok req =>
            rw [hq] at hround
            rw [List.range_succ, List.flatMap_append, ← ih before hbefore, List.flatMap_singleton,
              ← rdGetContextLocked_rows hth hq, ← Except.ok.inj hround]
            split_ifs
            · exact (List.append_nil _).symm
            · rfl
  unfold writeThreadContexts at h
  split_ifs at h
  exact hloop maxContexts rows h

theorem writeThreadContexts_returns (henv : env.AllOk) (hth : s.threads[i]? = some th) :
    ∃ rows, writeThreadContexts s env tid i = .ok rows := by
  have hloop : ∀ n ≤ maxContexts, ∃ rows,
      (List.range n).foldlM (writeContext s env i) [] = .ok rows := by
    intro n hn
    induction n with
    | zero => exact ⟨[], rfl⟩
    | succ n ih =>
        obtain ⟨before, hbefore⟩ := ih (by omega)
        have hquery : ∃ req, rdGetContextLocked s (env.context i (n + 1)) i (n + 1) = .ok req := by
          apply queryThread_exists hth (henv.context i (n + 1)).1 (henv.context i (n + 1)).2
          rw [if_neg (by omega)]
          cases th.contexts[n + 1 - 1]? with
          | none => exact ⟨_, rfl⟩
          | some e =>
              dsimp only
              split_ifs <;> exact ⟨_, rfl⟩
        obtain ⟨req, hreq⟩ := hquery
        refine ⟨if req.used = false then before else before ++ [contextRow req.contextId req.ips],
          foldlM_range_succ.mpr ⟨before, hbefore, ?_⟩⟩
        unfold writeContext
        rw [hreq]
  unfold writeThreadContexts
  rw [if_neg (by simp [henv.openContexts i])]
  exact hloop maxContexts le_rfl

end Rows

/-! ## The whole report -/

def ReportTotals.of (lines : List ThreadStats) : ReportTotals where
  seeds := (lines.map ThreadStats.reservoirAccepted).sum
  hits := (lines.map ThreadStats.hits).sum
  evictions := (lines.map ThreadStats.evictions).sum
  dropped := (lines.map ThreadStats.dropped).sum
  pairHistUsed := (lines.map ThreadStats.pairHistUsed).sum
  pairHistDropped := (lines.map ThreadStats.pairHistDropped).sum
  contextUsed := (lines.map ThreadStats.contextUsed).sum
  contextDropped := (lines.map ThreadStats.contextDropped).sum
  callchainFailed := (lines.map ThreadStats.callchainFailed).sum
  callchainTruncated := (lines.map ThreadStats.callchainTruncated).sum
  dwarfEventUsed := (lines.map ThreadStats.dwarfEventUsed).sum
  dwarfEventDropped := (lines.map ThreadStats.dwarfEventDropped).sum
  dwarfStackCopyFailed := (lines.map ThreadStats.dwarfStackCopyFailed).sum

theorem ReportTotals.of_concat (lines : List ThreadStats) (stats : ThreadStats) :
    of (lines ++ [stats]) = (of lines).add stats := by
  simp [of, add]

def eventFiles (s : Session) (env : ReportEnv) (i : ℕ) (th : Thread) : DwarfFiles :=
  ((writeThreadDwarfEvents s (env.dwarf i) (threadStatsOf s i th) i).toOption).getD ⟨[], []⟩

structure Report.Covers (s : Session) (mode : CallchainMode) (env : ReportEnv) (n : ℕ)
    (r : Report) : Prop where
  lines : r.lines = (s.threads.take n).mapIdx (threadStatsOf s)
  totals : r.totals = .of r.lines
  hist : r.files.hist =
    putAll [] ((s.threads.take n).map fun th => (th.tid, threadHistRows s th))
  pair : r.files.pair = putAll [] ((s.threads.take n).map fun th => (th.tid, threadPairRows th))
  contexts : r.contexts = if mode = .fp then
      putAll [] ((s.threads.take n).map fun th => (th.tid, threadContextRows th)) else []
  dwarf : r.dwarf = if mode = .dwarf then
      putAll [] ((s.threads.take n).mapIdx fun i th => (th.tid, eventFiles s env i th)) else []
  written : mode = .dwarf → ∀ i < n, ∀ th, s.threads[i]? = some th →
    writeThreadDwarfEvents s (env.dwarf i) (threadStatsOf s i th) i = .ok (eventFiles s env i th)

section Writer

variable {s : Session} {mode : CallchainMode} {env : ReportEnv} {i : ℕ} {th : Thread}
  {r r' : Report}

theorem reportContexts_ok (hth : s.threads[i]? = some th)
    {files files' : List (ℤ × List ContextRow)}
    (h : reportContexts s mode env (threadStatsOf s i th) i files = .ok files') :
    files' = if mode = .fp then put files (th.tid, threadContextRows th) else files := by
  unfold reportContexts at h
  by_cases hmode : mode = .fp
  · rw [if_pos hmode] at h ⊢
    obtain ⟨rows, hrows, hput⟩ := map_eq_ok.mp h
    rw [← hput, writeThreadContexts_ok hth hrows]
    rfl
  · rw [if_neg hmode] at h ⊢
    exact (Except.ok.inj h).symm

theorem reportDwarf_ok {files files' : List (ℤ × DwarfFiles)}
    (h : reportDwarf s mode env (threadStatsOf s i th) i files = .ok files') :
    (files' = if mode = .dwarf then put files (th.tid, eventFiles s env i th) else files) ∧
      (mode = .dwarf → writeThreadDwarfEvents s (env.dwarf i) (threadStatsOf s i th) i =
        .ok (eventFiles s env i th)) := by
  unfold reportDwarf at h
  by_cases hmode : mode = .dwarf
  · rw [if_pos hmode] at h ⊢
    obtain ⟨events, hevents, hput⟩ := map_eq_ok.mp h
    have hwritten := mapError_eq_ok.mp hevents
    have hfiles : eventFiles s env i th = events := by
      unfold eventFiles
      rw [hwritten]
      rfl
    rw [← hput, hfiles]
    exact ⟨rfl, fun _ => hwritten⟩
  · rw [if_neg hmode] at h ⊢
    exact ⟨(Except.ok.inj h).symm, fun hm => absurd hm hmode⟩

/-- What one round of the thread loop adds. -/
theorem reportThread_ok (hth : s.threads[i]? = some th)
    (h : reportThread s mode env r i = .ok r') :
    r' = ⟨r.lines ++ [threadStatsOf s i th], r.totals.add (threadStatsOf s i th),
      ⟨put r.files.hist (th.tid, threadHistRows s th),
        put r.files.pair (th.tid, threadPairRows th)⟩,
      if mode = .fp then put r.contexts (th.tid, threadContextRows th) else r.contexts,
      if mode = .dwarf then put r.dwarf (th.tid, eventFiles s env i th) else r.dwarf⟩ ∧
    (mode = .dwarf → writeThreadDwarfEvents s (env.dwarf i) (threadStatsOf s i th) i =
      .ok (eventFiles s env i th)) := by
  unfold reportThread at h
  cases hstats : rdGetThreadStatsLocked s (env.stats i) i with
  | error ret =>
      rw [hstats] at h
      cases h
  | ok stats =>
      rw [hstats] at h
      obtain rfl : stats = threadStatsOf s i th := by
        obtain ⟨th', hth', hreq⟩ := queryThread_ok hstats
        obtain rfl : th = th' := Option.some.inj (hth.symm.trans hth')
        exact (Except.ok.inj hreq).symm
      obtain ⟨hist, hhist, h⟩ := bind_eq_ok.mp h
      obtain ⟨pair, hpair, h⟩ := bind_eq_ok.mp h
      obtain ⟨contexts, hcontexts, h⟩ := bind_eq_ok.mp h
      obtain ⟨dwarf, hdwarf, h⟩ := bind_eq_ok.mp h
      obtain ⟨hd, hwritten⟩ := reportDwarf_ok hdwarf
      rw [writeThreadHistograms_ok hth (mapError_eq_ok.mp hhist),
        writeThreadPairHistograms_ok hth (mapError_eq_ok.mp hpair),
        reportContexts_ok hth hcontexts, hd] at h
      exact ⟨(Except.ok.inj h).symm, hwritten⟩

theorem Report.Covers.step {n : ℕ} (h : r.Covers s mode env n) (hth : s.threads[n]? = some th)
    (hround : reportThread s mode env r n = .ok r') : r'.Covers s mode env (n + 1) := by
  obtain ⟨rfl, hwritten⟩ := reportThread_ok hth hround
  obtain ⟨hlt, rfl⟩ := List.getElem?_eq_some_iff.mp hth
  have htake : s.threads.take (n + 1) = s.threads.take n ++ [s.threads[n]] :=
    List.take_succ_eq_append_getElem hlt
  have hlen : (s.threads.take n).length = n := by
    rw [List.length_take]
    omega
  refine ⟨?_, ?_, ?_, ?_, ?_, ?_, ?_⟩
  · rw [htake, List.mapIdx_concat, hlen, ← h.lines]
  · rw [ReportTotals.of_concat, ← h.totals]
  · rw [htake, List.map_append, List.map_singleton, putAll_concat, ← h.hist]
  · rw [htake, List.map_append, List.map_singleton, putAll_concat, ← h.pair]
  · rw [htake, List.map_append, List.map_singleton, putAll_concat]
    simp only [h.contexts]
    split_ifs <;> rfl
  · rw [htake, List.mapIdx_concat, hlen, putAll_concat]
    simp only [h.dwarf]
    split_ifs <;> rfl
  · intro hmode i hi th hi'
    rcases Nat.lt_succ_iff_lt_or_eq.mp hi with hi | rfl
    · exact h.written hmode i hi th hi'
    · obtain rfl := Option.some.inj ((List.getElem?_eq_getElem hlt).symm.trans hi')
      exact hwritten hmode

/-- A completed report covers the whole session. -/
theorem writeReport_covers (h : writeReport s mode env = .ok r) :
    r.Covers s mode env s.threads.length := by
  have hloop : ∀ n ≤ s.threads.length, ∀ r,
      (List.range n).foldlM (reportThread s mode env) ⟨[], .zero, ⟨[], []⟩, [], []⟩ = .ok r →
        r.Covers s mode env n := by
    intro n hn
    induction n with
    | zero =>
        intro r h
        rw [← Except.ok.inj h]
        exact ⟨rfl, rfl, rfl, rfl, by simp [putAll], by simp [putAll], fun _ i hi => by omega⟩
    | succ n ih =>
        intro r h
        obtain ⟨m, hm, hround⟩ := foldlM_range_succ.mp h
        exact (ih (by omega) m hm).step (List.getElem?_eq_getElem (by omega)) hround
  unfold writeReport rdGetLayoutLocked at h
  split_ifs at h
  exact hloop s.threads.length le_rfl r h

theorem writeThreadDwarfEvents_returns (hreach : s.Reachable) (henv : (env.dwarf i).AllOk)
    (hth : s.threads[i]? = some th) : ∃ files,
      writeThreadDwarfEvents s (env.dwarf i) (threadStatsOf s i th) i = .ok files := by
  have hfit := (hreach.resultsOk (List.mem_of_getElem? hth)).event_fit
  have hloop : ∀ n ≤ th.dwarfEventUsed, ∃ files,
      (List.range n).foldlM (writeDwarfEvent s (env.dwarf i) th.tid i) ⟨[], []⟩ = .ok files := by
    intro n hn
    induction n with
    | zero => exact ⟨_, rfl⟩
    | succ n ih =>
        obtain ⟨before, hbefore⟩ := ih (by omega)
        have hquery : ∃ req, rdGetDwarfEventLocked s ((env.dwarf i).get n)
            ((env.dwarf i).allocOk n) i n = .ok req := by
          apply queryThread_exists hth (henv.get n).1 (henv.get n).2
          rw [if_neg (by omega), if_neg (by simp [henv.allocOk n])]
          cases th.dwarfEvents.bind fun es => es[n]? with
          | none => exact ⟨_, rfl⟩
          | some e =>
              dsimp only
              split_ifs <;> exact ⟨_, rfl⟩
        obtain ⟨req, hreq⟩ := hquery
        have hround : ∃ files, writeDwarfEvent s (env.dwarf i) th.tid i before n = .ok files := by
          unfold writeDwarfEvent
          rw [hreq]
          dsimp only
          rw [if_neg (by simp [henv.writeOk n] : ¬ (env.dwarf i).writeOk n = false)]
          split_ifs <;> exact ⟨_, rfl⟩
        obtain ⟨files, hfiles⟩ := hround
        exact ⟨files, foldlM_range_succ.mpr ⟨before, hbefore, hfiles⟩⟩
  unfold writeThreadDwarfEvents
  rw [if_neg (by simp [henv.openBin]), if_neg (by simp [henv.openTxt])]
  exact hloop th.dwarfEventUsed le_rfl

theorem reportThread_returns (hreach : s.Reachable) (henv : env.AllOk)
    (hth : s.threads[i]? = some th) (r : Report) :
    ∃ r', reportThread s mode env r i = .ok r' := by
  have hstats : rdGetThreadStatsLocked s (env.stats i) i = .ok (threadStatsOf s i th) :=
    queryThread_eq hth (henv.write.stats i).1 (henv.write.stats i).2 rfl
  obtain ⟨hist, pair, hhist, hpair⟩ : ∃ hist pair,
      writeThreadHistograms s env.toWriteEnv th.tid i = .ok hist ∧
        writeThreadPairHistograms s env.toWriteEnv th.tid i = .ok pair := by
    obtain ⟨files, hfiles⟩ := writeThread_returns henv.write hth ⟨[], []⟩
    unfold writeThread at hfiles
    rw [hstats] at hfiles
    dsimp only [threadStatsOf] at hfiles
    cases hhist : writeThreadHistograms s env.toWriteEnv th.tid i with
    | error e =>
        rw [hhist] at hfiles
        cases hfiles
    | ok hist =>
        cases hpair : writeThreadPairHistograms s env.toWriteEnv th.tid i with
        | error e =>
            rw [hhist, hpair] at hfiles
            cases hfiles
        | ok pair => exact ⟨hist, pair, rfl, rfl⟩
  obtain ⟨contexts, hcontexts⟩ : ∃ contexts,
      reportContexts s mode env (threadStatsOf s i th) i r.contexts = .ok contexts := by
    unfold reportContexts
    split_ifs
    · obtain ⟨rows, hrows⟩ := @writeThreadContexts_returns s env th.tid i th henv hth
      exact ⟨_, map_eq_ok.mpr ⟨rows, hrows, rfl⟩⟩
    · exact ⟨_, rfl⟩
  obtain ⟨dwarf, hdwarf⟩ : ∃ dwarf,
      reportDwarf s mode env (threadStatsOf s i th) i r.dwarf = .ok dwarf := by
    unfold reportDwarf
    split_ifs
    · obtain ⟨files, hfiles⟩ := writeThreadDwarfEvents_returns hreach (henv.dwarf i) hth
      exact ⟨_, map_eq_ok.mpr ⟨files, mapError_eq_ok.mpr hfiles, rfl⟩⟩
    · exact ⟨_, rfl⟩
  unfold reportThread
  rw [hstats]
  refine ⟨_, bind_eq_ok.mpr ⟨hist, mapError_eq_ok.mpr hhist, bind_eq_ok.mpr
    ⟨pair, mapError_eq_ok.mpr hpair, bind_eq_ok.mpr ⟨contexts, hcontexts, bind_eq_ok.mpr
      ⟨dwarf, hdwarf, rfl⟩⟩⟩⟩⟩

/-- When every call succeeds the report is completed. -/
theorem writeReport_returns (hreach : s.Reachable) (henv : env.AllOk) :
    ∃ r, writeReport s mode env = .ok r := by
  have hloop : ∀ n ≤ s.threads.length, ∃ r,
      (List.range n).foldlM (reportThread s mode env) ⟨[], .zero, ⟨[], []⟩, [], []⟩ = .ok r := by
    intro n hn
    induction n with
    | zero => exact ⟨_, rfl⟩
    | succ n ih =>
        obtain ⟨r, hr⟩ := ih (by omega)
        obtain ⟨r', hr'⟩ := @reportThread_returns s mode env n _ hreach henv
          (List.getElem?_eq_getElem (by omega)) r
        exact ⟨r', foldlM_range_succ.mpr ⟨r, hr, hr'⟩⟩
  unfold writeReport rdGetLayoutLocked
  rw [if_pos henv.write.layout]
  exact hloop s.threads.length le_rfl

end Writer

def smallDwarfEnv : DwarfWriteEnv where
  openBin := true
  openTxt := true
  get := fun _ => ⟨true, true⟩
  allocOk := fun _ => true
  writeOk := fun _ => true
  slack := fun _ => ⟨fun _ => 0, fun _ => 0⟩

def smallReportEnv : ReportEnv where
  toWriteEnv := smallWriteEnv
  openContexts := fun _ => true
  context := fun _ _ => ⟨true, true⟩
  dwarf := fun _ => smallDwarfEnv

theorem smallReportEnv_allOk : smallReportEnv.AllOk :=
  ⟨smallWriteEnv_allOk, fun _ => rfl, fun _ _ => ⟨rfl, rfl⟩,
    fun _ => ⟨rfl, rfl, fun _ => ⟨rfl, rfl⟩, fun _ => rfl, fun _ => rfl⟩⟩

end RdSpeTool
