import RdSpeTool.CallchainWalk
import RdSpeTool.RunReport

/-!
# What the context ids in a pair file name

The pair file and the context file of a tid are written together, from one context of the session.
Every id in the first is a row of the second, and a row shows the chain that was captured.
-/

namespace RdSpeTool

open KeyedFiles ProbeTable

/-! ## Stored chains -/

/-- A chain as it is stored: well formed and within the depth limit. -/
structure StoredChain (ips : List U64) : Prop where
  ok : ChainOk ips
  depth : ips.length ≤ maxCallchainDepth

theorem storedChain_captureChain {c : SessionCtl} {th : Thread} {u : UserMem}
    {regs : Option PtRegs} {key : List U64}
    (h : chainKey c (captureChain c th u regs).2 = some key) : StoredChain key := by
  unfold chainKey at h
  split_ifs at h with hkey
  obtain ⟨hmode, hne⟩ := hkey
  obtain rfl := Option.some.inj h
  have hcapture : captureChain c th u regs = rdCaptureCallchain th u regs := if_pos hmode
  rw [hcapture] at hne ⊢
  cases regs with
  | none => exact absurd rfl hne
  | some r =>
      by_cases hoff : r.userMode = false ∨ r.pc = 0
      · exact absurd (by simp only [rdCaptureCallchain, if_pos hoff]) hne
      have huser : r.userMode = true := by
        cases hu : r.userMode with
        | true => rfl
        | false => exact absurd (.inl hu) hoff
      have hpc : r.pc ≠ 0 := fun h0 => hoff (.inr h0)
      obtain ⟨⟨chain, cut⟩, hchain⟩ :=
        exists_walkLoop u (some maxCallchainDepth) [r.pc] (r.regs 29)
      obtain ⟨full, hfull⟩ := exists_walkLoop u none [r.pc] (r.regs 29)
      obtain ⟨hok, hdepth, -, -⟩ := walkLoop_prefix (chainOk_singleton hpc)
        (by simp [maxCallchainDepth]) (hchain _ le_rfl) (hfull _ le_rfl)
      rw [rdCaptureCallchain_walk th huser hpc (walkLoop_limited (hchain _ le_rfl))]
      exact ⟨hok, hdepth⟩

theorem storedChain_contextKey {c : SessionCtl} {th : Thread} {ht : Hit} {key : List U64}
    (h : th.contextKey c ht = some key) : StoredChain key := by
  cases ht with
  | bp t regs env =>
      simp only [Thread.contextKey, seedKey] at h
      repeat' split at h
      all_goals first | cases h | exact storedChain_captureChain h
  | wp i regs env =>
      simp only [Thread.contextKey, reuseKey] at h
      split at h
      · cases h
      · exact storedChain_captureChain h

/-- A request adds at most the chain it asks with. -/
theorem ContextView.mem_request {v : ContextView} {key : Option (List U64)} {e : ContextEntry}
    (h : e ∈ (v.request key).1.contexts) : e ∈ v.contexts ∨ ∃ k, key = some k ∧ e = ⟨true, k⟩ := by
  cases key with
  | none => exact .inl h
  | some k =>
      simp only [request, lookup] at h
      split_ifs at h
      · exact .inl h
      cases hp : probe ContextEntry.used (fun e => e.ips == k) v.contexts 0 none with
      | found i =>
          rw [hp] at h
          exact .inl h
      | free i =>
          rw [hp] at h
          obtain ⟨j, hj⟩ := List.mem_iff_getElem?.mp h
          obtain ⟨e', he', ⟨-, rfl⟩ | ⟨-, rfl⟩⟩ := getElem?_modify_cases hj
          · exact .inr ⟨k, rfl, rfl⟩
          · exact .inl (List.mem_of_getElem? he')
      | full =>
          rw [hp] at h
          exact .inl h

/-- The table holds captured chains, and nothing unless frame pointers are followed. -/
structure ChainsOk (c : SessionCtl) (th : Thread) : Prop where
  chains : ∀ e ∈ th.contexts, e.used = true → StoredChain e.ips
  unused : c.callchainMode ≠ .fp → th.contextUsed = 0

namespace ChainsOk

variable {c c' : SessionCtl} {th th' : Thread}

theorem of_empty (h : ∀ e ∈ th.contexts, e.used = false) (hused : th.contextUsed = 0) :
    ChainsOk c th := by
  refine ⟨fun e he hu => ?_, fun _ => hused⟩
  rw [h e he] at hu
  cases hu

theorem newThread (c : SessionCtl) (arg : ThreadRegister) : ChainsOk c (newThread c arg) := by
  rw [newThread_eq]
  refine of_empty ?_ rfl
  intro e he
  rw [List.eq_of_mem_replicate he]
  rfl

theorem hit (h : ChainsOk c th) (ht : Hit) : ChainsOk c (th.hit c ht) := by
  obtain ⟨htable, hused⟩ := (view_hit c th ht).table
  refine ⟨?_, ?_⟩
  · intro e he hu
    change e ∈ (th.hit c ht).contextView.contexts at he
    rw [htable] at he
    rcases ContextView.mem_request he with he | ⟨key, hkey, rfl⟩
    · exact h.chains e he hu
    · exact storedChain_contextKey hkey
  · intro hmode
    rw [contextKey_eq_none hmode ht] at hused
    exact hused.trans (h.unused hmode)

theorem step (hs : Shaped c th) (h : ChainsOk c th) (hstep : ThreadStep c th c' th') :
    ChainsOk c' th' := by
  cases hstep with
  | same => exact h
  | hit ht _ => exact h.hit ht
  | window b =>
      unfold Thread.window
      split_ifs <;> exact ⟨h.chains, h.unused⟩
  | reset _ mods =>
      obtain ⟨p, hp, -⟩ := hs.reset_parked mods
      rw [hp]
      refine of_empty ?_ rfl
      intro e he
      obtain ⟨e', -, rfl⟩ := List.mem_map.mp he
      rfl
  | detach ha =>
      unfold rdThreadDetachLive
      rw [hs.liveDetached ha]
      exact ⟨h.chains, h.unused⟩

end ChainsOk

theorem Session.Reachable.chainsOk {s : Session} (h : s.Reachable) {th : Thread}
    (hth : th ∈ s.threads) : ChainsOk s.toSessionCtl th :=
  h.shaped_induction (I := ChainsOk) (fun c arg _ => ChainsOk.newThread c arg)
    (fun _ _ _ _ _ hs hi hstep => hi.step hs hstep) hth

/-! ## Rows -/

theorem columns_eq {ips : List U64} (h : ips.length ≤ maxCallchainDepth) :
    ((List.range maxCallchainDepth).map fun i => ips[i]?.getD 0) =
      ips ++ List.replicate (maxCallchainDepth - ips.length) 0 := by
  apply List.ext_getElem
  · simp only [List.length_map, List.length_range, List.length_append, List.length_replicate]
    omega
  · intro i hi hi'
    rw [List.getElem_map, List.getElem_range]
    by_cases hlt : i < ips.length
    · rw [List.getElem_append_left hlt, List.getElem?_eq_getElem hlt, Option.getD_some]
    · rw [List.getElem_append_right (by omega), List.getElem?_eq_none (by omega),
        List.getElem_replicate, Option.getD_none]

def ContextRow.chain (row : ContextRow) : List U64 := row.ips.take row.depth

theorem chain_contextRow {ips : List U64} (h : ips.length ≤ maxCallchainDepth) (id : ℕ) :
    (contextRow id ips).chain = ips := by
  unfold ContextRow.chain contextRow
  dsimp only
  rw [columns_eq h, List.take_left]

/-- The columns alone tell the chain: no address of it is zero. -/
theorem takeWhile_contextRow {ips : List U64} (h : StoredChain ips) (id : ℕ) :
    (contextRow id ips).ips.takeWhile (· ≠ 0) = ips := by
  unfold contextRow
  dsimp only
  rw [columns_eq h.depth,
    List.takeWhile_append_of_pos fun ip hip => by simpa using h.ok.nonzero ip hip]
  cases maxCallchainDepth - ips.length with
  | zero => simp
  | succ n => simp [List.replicate_succ]

theorem mem_threadContextRows {th : Thread} {row : ContextRow} :
    row ∈ threadContextRows th ↔ ∃ n < maxContexts, ∃ e, th.contexts[n]? = some e ∧
      e.used = true ∧ row = contextRow (n + 1) e.ips := by
  unfold threadContextRows
  rw [List.mem_flatMap]
  constructor
  · rintro ⟨n, hn, hrow⟩
    cases he : th.contexts[n]? with
    | none => simp [he] at hrow
    | some e =>
        rw [he, Option.map_some, Option.getD_some] at hrow
        unfold contextEntryRows at hrow
        split_ifs at hrow with hu
        · exact ⟨n, List.mem_range.mp hn, e, he, hu, List.mem_singleton.mp hrow⟩
        · cases hrow
  · rintro ⟨n, hn, e, he, hu, rfl⟩
    refine ⟨n, List.mem_range.mpr hn, ?_⟩
    rw [he, Option.map_some, Option.getD_some, contextEntryRows, if_pos hu]
    exact List.mem_singleton_self _

/-- The ids of a context file are `1 .. context_used`, in order. -/
theorem contextIds_threadContextRows {th : Thread} (h : th.contextView.Sound)
    (hlen : th.contexts.length = maxContexts) :
    (threadContextRows th).map ContextRow.contextId =
      (List.range th.contextUsed).map (· + 1) := by
  have hfirst : ∀ n ≤ maxContexts, (((List.range n).flatMap fun n =>
      ((th.contexts[n]?).map (contextEntryRows (n + 1))).getD []).map ContextRow.contextId) =
        (List.range (min n th.contextUsed)).map (· + 1) := by
    intro n hn
    induction n with
    | zero => rfl
    | succ n ih =>
        have hget := List.getElem?_eq_getElem (show n < th.contexts.length by omega)
        have huse := h.used_iff n _ hget
        rw [List.range_succ, List.flatMap_append, List.map_append, ih (by omega),
          List.flatMap_singleton, hget, Option.map_some, Option.getD_some, contextEntryRows]
        by_cases hu : th.contexts[n].used = true
        · have hlt := huse.mp hu
          rw [if_pos hu, Nat.min_eq_left hlt.le, Nat.min_eq_left hlt, List.range_succ,
            List.map_append]
          rfl
        · have hge : th.contextUsed ≤ n := not_lt.mp fun hlt => hu (huse.mpr hlt)
          rw [if_neg hu, Nat.min_eq_right hge, Nat.min_eq_right (hge.trans (Nat.le_succ n))]
          exact List.append_nil _
  have hall := hfirst maxContexts le_rfl
  have hfit : th.contextUsed ≤ maxContexts := hlen ▸ h.le_length
  rwa [Nat.min_eq_right hfit] at hall

/-- A pair file has a row for each nonempty bucket of an entry in use. -/
theorem mem_threadPairRows {th : Thread} {row : PairRow} :
    row ∈ threadPairRows th ↔ ∃ i < maxPairHists, ∃ e, th.pairHist[i]? = some e ∧ e.used = true ∧
      row ∈ bucketRows (PairRow.mk e.key) e.buckets := by
  unfold threadPairRows
  rw [List.mem_flatMap]
  constructor
  · rintro ⟨i, hi, hrow⟩
    cases he : th.pairHist[i]? with
    | none => simp [he] at hrow
    | some e =>
        rw [he, Option.map_some, Option.getD_some] at hrow
        unfold pairEntryRows at hrow
        split_ifs at hrow with hu
        · exact ⟨i, List.mem_range.mp hi, e, he, hu, hrow⟩
        · cases hrow
  · rintro ⟨i, hi, e, he, hu, hrow⟩
    refine ⟨i, List.mem_range.mpr hi, ?_⟩
    rwa [he, Option.map_some, Option.getD_some, pairEntryRows, if_pos hu]

theorem key_of_mem_threadPairRows {th : Thread} {row : PairRow} (h : row ∈ threadPairRows th) :
    ∃ e ∈ th.pairHist, e.used = true ∧ row.key = e.key := by
  obtain ⟨i, -, e, he, hu, hrow⟩ := mem_threadPairRows.mp h
  obtain ⟨b, -, -, rfl⟩ := mem_bucketRows.mp hrow
  exact ⟨e, List.mem_of_getElem? he, hu, rfl⟩

/-- What a context file promises to a reader of the pair file beside it. -/
structure Explains (contexts : List ContextRow) (rows : List PairRow) : Prop where
  ids : contexts.map ContextRow.contextId = (List.range contexts.length).map (· + 1)
  resolved : ∀ row ∈ rows, ∀ id, id = row.key.seedContextId ∨ id = row.key.reuseContextId →
    id ≠ 0 → ∃ c ∈ contexts, c.contextId = id
  columns : ∀ c ∈ contexts,
    c.ips = c.chain ++ List.replicate (maxCallchainDepth - c.chain.length) 0
  chains : ∀ c ∈ contexts, StoredChain c.chain
  distinct : ∀ c ∈ contexts, ∀ c' ∈ contexts, c.ips = c'.ips → c = c'

/-- The two files of one context. -/
theorem Session.Reachable.explains {s : Session} (h : s.Reachable) {th : Thread}
    (hth : th ∈ s.threads) : Explains (threadContextRows th) (threadPairRows th) := by
  have hctx := h.contextsOk hth
  have hchains := (h.chainsOk hth).chains
  have hlen := (h.shaped hth).tables.2.2.1
  have hids := contextIds_threadContextRows hctx.sound hlen
  have hlength : (threadContextRows th).length = th.contextUsed := by
    simpa using congrArg List.length hids
  have hstored : ∀ {n : ℕ} {e : ContextEntry}, th.contexts[n]? = some e → e.used = true →
      StoredChain e.ips := fun he hu => hchains _ (List.mem_of_getElem? he) hu
  refine ⟨?_, ?_, ?_, ?_, ?_⟩
  · rw [hlength]
    exact hids
  · intro row hrow id hid hne
    obtain ⟨e, he, hu, hkey⟩ := key_of_mem_threadPairRows hrow
    have hle : id ≤ th.contextUsed := by
      obtain ⟨hseed, hreuse⟩ := hctx.pairs e he hu
      rw [hkey] at hid
      rcases hid with rfl | rfl
      · exact hseed
      · exact hreuse
    have hmem : id ∈ (threadContextRows th).map ContextRow.contextId := by
      rw [hids, List.mem_map]
      exact ⟨id - 1, List.mem_range.mpr (by omega), by omega⟩
    obtain ⟨c, hc, rfl⟩ := List.mem_map.mp hmem
    exact ⟨c, hc, rfl⟩
  · intro c hc
    obtain ⟨n, -, e, he, hu, rfl⟩ := mem_threadContextRows.mp hc
    rw [chain_contextRow (hstored he hu).depth]
    exact columns_eq (hstored he hu).depth
  · intro c hc
    obtain ⟨n, -, e, he, hu, rfl⟩ := mem_threadContextRows.mp hc
    rw [chain_contextRow (hstored he hu).depth]
    exact hstored he hu
  · intro c hc c' hc' hips
    obtain ⟨n, -, e, he, hu, rfl⟩ := mem_threadContextRows.mp hc
    obtain ⟨n', -, e', he', hu', rfl⟩ := mem_threadContextRows.mp hc'
    have hsame : e.ips = e'.ips := by
      rw [← takeWhile_contextRow (hstored he hu) (n + 1),
        ← takeWhile_contextRow (hstored he' hu') (n' + 1), hips]
    rw [hctx.sound.key_inj n n' e e' he he' hu hu' hsame, hsame]

/-- In every report of a reachable session the pair file of a tid stands beside at most one context
file of that tid. Where frame pointers were followed there is one, and it explains every id in the
pair file by a different chain; elsewhere there is none and the pair file holds no id. -/
theorem pair_rows_resolve (s : Session) (h : s.Reachable) (env : ReportEnv) (r : Report)
    (hr : writeReport s s.callchainMode env = .ok r) (tid : ℤ) (rows : List PairRow)
    (hrows : (tid, rows) ∈ r.files.pair) :
    (s.callchainMode = .fp → ∃ contexts, Explains contexts rows ∧
      ∀ contexts', (tid, contexts') ∈ r.contexts ↔ contexts' = contexts) ∧
    (s.callchainMode ≠ .fp → r.contexts = [] ∧
      ∀ row ∈ rows, row.key.seedContextId = 0 ∧ row.key.reuseContextId = 0) := by
  have hcovers := writeReport_covers hr
  have hpair := hcovers.pair
  have hcontexts := hcovers.contexts
  rw [List.take_length] at hpair hcontexts
  rw [hpair] at hrows
  obtain ⟨th, hth, -, hrows, hsame⟩ := eq_content_of_mem threadContextRows hrows
  rw [hrows]
  refine ⟨fun hmode => ?_, fun hmode => ?_⟩
  · refine ⟨threadContextRows th, h.explains hth, fun contexts' => ?_⟩
    rw [hcontexts, if_pos hmode]
    exact hsame contexts'
  · refine ⟨hcontexts.trans (if_neg hmode), fun row hrow => ?_⟩
    obtain ⟨e, he, hu, hkey⟩ := key_of_mem_threadPairRows hrow
    have hids := (h.contextsOk hth).pairs e he hu
    rw [(h.chainsOk hth).unused hmode] at hids
    rw [hkey]
    exact ⟨Nat.le_zero.mp hids.1, Nat.le_zero.mp hids.2⟩

def twoChainThread (mode : ℕ) : Thread :=
  (reuseHits.take 2 ++ [otherReuse]).foldl (Thread.hit (smallSession mode).toSessionCtl)
    (newThread (smallSession mode).toSessionCtl smallThread)

theorem twoChainThread_eq (mode : ℕ) : twoChainThread mode =
    (watchedThread mode).hit (smallSession mode).toSessionCtl otherReuse :=
  foldl_reuseHits_append _ _ otherReuse

theorem run_twoChains (mode : ℕ) (hmode : mode < 3) :
    (rdWpctlOpen 1).run (smallRun mode ++ twoChains) =
      ⟨(smallSession mode).toSessionCtl, [twoChainThread mode]⟩ :=
  run_smallRun_hits mode hmode (reuseHits.take 2 ++ [otherReuse])

theorem twoChainThread_tid (mode : ℕ) (hmode : mode < 3) : (twoChainThread mode).tid = 7 := by
  have hframe : (twoChainThread mode).frame =
      (newThread (smallSession mode).toSessionCtl smallThread).frame := frame_hits ..
  refine (congrArg Frame.tid hframe).trans ?_
  interval_cases mode <;> rfl

/-- Its second context is the chain of the reuse. -/
theorem twoChainThread_contexts :
    (twoChainThread 1).contexts[1]? = some ⟨true, numberedChain 0x400204⟩ := by
  obtain ⟨hused, hcontexts⟩ := watchedThread_contexts
  have hsound := ((watchedThread_reachable 1 (by decide)).contextsOk
    (List.mem_singleton_self _)).sound
  rw [twoChainThread_eq]
  exact contexts_hit_second hsound hused hcontexts contextKey_otherReuse (by decide) (by decide)

/-- The reuse is filed under that context. -/
theorem twoChainThread_row : ∃ row ∈ threadPairRows (twoChainThread 1),
    row.key.seedPcOffset = 0x100 ∧ row.key.reusePc = 0x400204 ∧ row.key.reuseContextId = 2 ∧
      row.count = 1 := by
  obtain ⟨hused, hcontexts⟩ := watchedThread_contexts
  have hsound := ((watchedThread_reachable 1 (by decide)).contextsOk
    (List.mem_singleton_self _)).sound
  obtain ⟨slot, -, -, -, -, hpairs⟩ := watchedThread_pairs 1 (by decide)
    (r := { smallRegs with pc := 0x400204 }) (by decide)
  have hid := (view_contextOf (smallSession 1).toSessionCtl (watchedThread 1)
    (numberedChain 0x400204)).2
  have hkey : chainKey (smallSession 1).toSessionCtl (numberedChain 0x400204) =
    some (numberedChain 0x400204) := rfl
  have hbucket : rdLog2Bucket (reuseDelta 5 9) = 2 := by decide
  rw [hkey, ContextView.request, lookup_second hsound hused hcontexts
    (show numberedChain 0x400204 ≠ [] by decide) (by decide)] at hid
  rw [captureChain_otherReuse, hid, hbucket, ← otherReuse, ← twoChainThread_eq] at hpairs
  exact ⟨_, mem_threadPairRows.mpr ⟨0, by decide, _, congrArg (·[0]?) hpairs, rfl,
    mem_bucketRows.mpr ⟨2, by decide, Nat.one_ne_zero, rfl⟩⟩, rfl, rfl, rfl, rfl⟩

theorem pair_rows_resolve_small : ∃ r rows contexts,
    writeReport ⟨(smallSession 1).toSessionCtl, [twoChainThread 1]⟩ .fp smallReportEnv = .ok r ∧
    (7, rows) ∈ r.files.pair ∧ (7, contexts) ∈ r.contexts ∧ Explains contexts rows ∧
    (∃ row ∈ rows, row.key.reusePc = 0x400204 ∧ row.key.reuseContextId = 2) ∧
    ∃ row ∈ contexts, row.contextId = 2 ∧
      row.ips = [0x400204, 0x0F0E0D0C0B0A0908, 0, 0, 0, 0, 0, 0] := by
  have hreach : (⟨(smallSession 1).toSessionCtl, [twoChainThread 1]⟩ : Session).Reachable :=
    ⟨1, smallRun 1 ++ twoChains, run_twoChains 1 (by decide)⟩
  obtain ⟨r, hr⟩ := @writeReport_returns ⟨(smallSession 1).toSessionCtl, [twoChainThread 1]⟩ .fp
    smallReportEnv hreach smallReportEnv_allOk
  have htid := twoChainThread_tid 1 (by decide)
  have hpair : (7, threadPairRows (twoChainThread 1)) ∈ r.files.pair := by
    rw [(writeReport_covers hr).pair, List.length_singleton, List.take_one, ← htid]
    exact List.mem_cons_self
  have hcontexts : (7, threadContextRows (twoChainThread 1)) ∈ r.contexts := by
    rw [(writeReport_covers hr).contexts, List.length_singleton, List.take_one, ← htid]
    exact List.mem_cons_self
  obtain ⟨contexts, hexplains, hall⟩ := (pair_rows_resolve
    ⟨(smallSession 1).toSessionCtl, [twoChainThread 1]⟩ hreach smallReportEnv r hr 7 _ hpair).1 rfl
  obtain ⟨row, hrow, -, hpc, hid, -⟩ := twoChainThread_row
  refine ⟨r, _, contexts, hr, hpair, (hall contexts).mpr rfl, hexplains, ⟨row, hrow, hpc, hid⟩, ?_⟩
  rw [← (hall _).mp hcontexts]
  exact ⟨_, mem_threadContextRows.mpr ⟨1, by decide, _, twoChainThread_contexts, rfl, rfl⟩, rfl,
    rfl⟩

end RdSpeTool
