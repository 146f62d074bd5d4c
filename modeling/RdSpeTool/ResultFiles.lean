import RdSpeTool.KeyedFiles
import RdSpeTool.Queries
import RdSpeTool.Results

/-!
# Histogram files of the targeted profiler

`write_info` walks the contexts of the session by their position, but names the two histogram
files of a context by its tid and opens them with truncation. A directory keeps, for each tid,
the rows of the file `<name>.rd2.t<tid>.hist.log2.txt` or of its pair counterpart.
-/

namespace RdSpeTool

open KeyedFiles

def bucketLo (bucket : ℕ) : ℕ :=
  if bucket = 0 then 0 else if bucket = 1 then 1 else 2 ^ (bucket - 1)

def bucketHi (bucket : ℕ) : ℕ :=
  if bucket = 0 then 0
  else if bucket = 1 then 1
  else if bucket ≥ 63 then 2 ^ 64 - 1
  else 2 ^ bucket - 1

structure HistRow where
  pcOffset : U64
  lo : ℕ
  hi : ℕ
  count : ℕ

structure PairRow where
  key : PairKey
  lo : ℕ
  hi : ℕ
  count : ℕ

/-- What the writer meets: the copies of each query and whether each file opens. -/
structure WriteEnv where
  layout : UserCopy
  stats : ℕ → UserCopy
  openHist : ℕ → Bool
  hist : ℕ → ℕ → UserCopy
  openPair : ℕ → Bool
  pair : ℕ → ℕ → UserCopy

structure WriteEnv.AllOk (env : WriteEnv) : Prop where
  layout : env.layout.toUser = true
  stats : ∀ i, (env.stats i).fromUser = true ∧ (env.stats i).toUser = true
  openHist : ∀ i, env.openHist i = true
  hist : ∀ i t, (env.hist i t).fromUser = true ∧ (env.hist i t).toUser = true
  openPair : ∀ i, env.openPair i = true
  pair : ∀ i n, (env.pair i n).fromUser = true ∧ (env.pair i n).toUser = true

inductive WriteError
  | layout (ret : ℤ)
  | threadStats (ret : ℤ)
  | openHist (tid : ℤ)
  | log2Hist (ret : ℤ)
  | openPair (tid : ℤ)
  | pairHist (ret : ℤ)

def WriteError.what (name : String) (strerror : ℤ → String) : WriteError → String
  | layout ret => "RDKIOC_GET_LAYOUT failed: " ++ strerror ret
  | threadStats ret => "RDKIOC_GET_THREAD_STATS failed: " ++ strerror ret
  | openHist tid => "cannot open " ++ name ++ ".rd2.t" ++ toString tid ++ ".hist.log2.txt"
  | log2Hist ret => "RDKIOC_GET_LOG2_HIST failed: " ++ strerror ret
  | openPair tid =>
      "cannot open " ++ name ++ ".rd2.t" ++ toString tid ++ ".pair.hist.log2.txt"
  | pairHist ret => "RDKIOC_GET_PAIR_HIST_ENTRY failed: " ++ strerror ret

def bucketRows {α : Type} (row : ℕ → ℕ → ℕ → α) (buckets : List ℕ) : List α :=
  (List.range log2Buckets).filterMap fun b =>
    let count := buckets[b]?.getD 0
    if count = 0 then none else some (row (bucketLo b) (bucketHi b) count)

/-- A loop of queries that stops at the first failure; `rows` turns a reply into file rows. -/
def collect {α β : Type} (err : ℤ → WriteError) (query : ℕ → Except ℤ α) (rows : ℕ → α → List β) :
    ℕ → Except WriteError (List β)
  | 0 => .ok []
  | n + 1 =>
      match collect err query rows n with
      | .error e => .error e
      | .ok before =>
          match query n with
          | .error ret => .error (err ret)
          | .ok reply => .ok (before ++ rows n reply)

def targetPcOffset (s : Session) (t : ℕ) : U64 := (s.targets[t]?.map Target.pcOffset).getD 0

def writeThreadHistograms (s : Session) (env : WriteEnv) (tid : ℤ) (threadIndex : ℕ) :
    Except WriteError (List HistRow) :=
  if env.openHist threadIndex = false then .error (.openHist tid)
  else
    collect .log2Hist (fun t => rdGetHistLocked s (env.hist threadIndex t) threadIndex t)
      (fun t req => bucketRows (HistRow.mk (targetPcOffset s t)) req.buckets) s.targetCount

def writeThreadPairHistograms (s : Session) (env : WriteEnv) (tid : ℤ) (threadIndex : ℕ) :
    Except WriteError (List PairRow) :=
  if env.openPair threadIndex = false then .error (.openPair tid)
  else
    collect .pairHist (fun i => rdGetPairHistLocked s (env.pair threadIndex i) threadIndex i)
      (fun _ req =>
        if req.used = false then []
        else bucketRows (PairRow.mk ⟨req.seedPcOffset, req.seedContextId, req.reusePc,
          req.reuseContextId⟩) req.buckets) maxPairHists

structure ResultFiles where
  hist : List (ℤ × List HistRow)
  pair : List (ℤ × List PairRow)

def writeThread (s : Session) (env : WriteEnv) (files : ResultFiles) (i : ℕ) :
    Except WriteError ResultFiles :=
  match rdGetThreadStatsLocked s (env.stats i) i with
  | .error ret => .error (.threadStats ret)
  | .ok stats =>
      match writeThreadHistograms s env stats.tid i with
      | .error e => .error e
      | .ok hist =>
          match writeThreadPairHistograms s env stats.tid i with
          | .error e => .error e
          | .ok pair => .ok ⟨put files.hist (stats.tid, hist), put files.pair (stats.tid, pair)⟩

def writeThreads (s : Session) (env : WriteEnv) : ℕ → Except WriteError ResultFiles
  | 0 => .ok ⟨[], []⟩
  | n + 1 =>
      match writeThreads s env n with
      | .error e => .error e
      | .ok files => writeThread s env files n

/-- The files of `write_info` in a directory that held none with its names. -/
def writeInfo (s : Session) (env : WriteEnv) : Except WriteError ResultFiles :=
  match rdGetLayoutLocked s env.layout with
  | .error ret => .error (.layout ret)
  | .ok layout => writeThreads s env layout.threadCount

/-! ## What the files hold -/

def histCount (offset : U64) (b : ℕ) (rows : List HistRow) : ℕ :=
  ((rows.filter fun r => r.pcOffset = offset ∧ r.lo = bucketLo b).map HistRow.count).sum

def pairCount (key : PairKey) (b : ℕ) (rows : List PairRow) : ℕ :=
  ((rows.filter fun r => r.key = key ∧ r.lo = bucketLo b).map PairRow.count).sum

def Thread.histCount (s : Session) (th : Thread) (offset : U64) (b : ℕ) : ℕ :=
  (((List.range s.targetCount).filter fun t => targetPcOffset s t = offset).map fun t =>
    th.log2Hist[t * log2Buckets + b]?.getD 0).sum

def Thread.pairCount (th : Thread) (key : PairKey) (b : ℕ) : ℕ :=
  ((th.pairHist.filter fun e => e.used ∧ e.key = key).map fun e => e.buckets[b]?.getD 0).sum

/-- The files together hold the sums over all contexts of the session. -/
def ResultFiles.Complete (s : Session) (files : ResultFiles) : Prop :=
  (∀ offset, ∀ b < log2Buckets, (files.hist.map fun f => histCount offset b f.2).sum =
    (s.threads.map fun th => th.histCount s offset b).sum) ∧
  ∀ key, ∀ b < log2Buckets, (files.pair.map fun f => pairCount key b f.2).sum =
    (s.threads.map fun th => th.pairCount key b).sum

theorem bucketLo_add_two (n : ℕ) : bucketLo (n + 2) = 2 * 2 ^ n := by
  simp [bucketLo, pow_succ, mul_comm]

theorem bucketLo_inj {a b : ℕ} (h : bucketLo a = bucketLo b) : a = b := by
  have hzero : bucketLo 0 = 0 := rfl
  have hone : bucketLo 1 = 1 := rfl
  have hpos : ∀ n : ℕ, 0 < 2 ^ n := fun n => Nat.two_pow_pos n
  rcases a with _ | _ | a <;> rcases b with _ | _ | b <;>
    simp only [hzero, hone, bucketLo_add_two, Nat.zero_add] at h ⊢
  · omega
  · have := hpos b
    omega
  · omega
  · omega
  · have := hpos a
    omega
  · omega
  · have hpow : 2 ^ a = 2 ^ b := by omega
    rw [Nat.pow_right_injective le_rfl hpow]

/-- A selection of rows by their lower bound picks one bucket. -/
theorem sum_bucketRows {α : Type} {row : ℕ → ℕ → ℕ → α} {count : α → ℕ}
    (hcount : ∀ lo hi n, count (row lo hi n) = n) {p : α → Bool} {q : Prop} [Decidable q] {b : ℕ}
    (hp : ∀ lo hi n, p (row lo hi n) = true ↔ q ∧ lo = bucketLo b) (hb : b < log2Buckets)
    (buckets : List ℕ) :
    (((bucketRows row buckets).filter p).map count).sum = if q then buckets[b]?.getD 0 else 0 := by
  -- over the first `n` buckets the sum is the wanted count once it was passed
  have hfirst : ∀ n, ((((List.range n).filterMap fun b =>
      if buckets[b]?.getD 0 = 0 then none
      else some (row (bucketLo b) (bucketHi b) (buckets[b]?.getD 0))).filter p).map count).sum =
        if q ∧ b < n then buckets[b]?.getD 0 else 0 := by
    intro n
    induction n with
    | zero => simp
    | succ n ih =>
        rw [List.range_succ, List.filterMap_append, List.filter_append, List.map_append,
          List.sum_append, ih]
        by_cases hzero : buckets[n]?.getD 0 = 0
        · have hlast : ∀ m, m = n → buckets[m]?.getD 0 = 0 := fun m hm => hm ▸ hzero
          simp only [List.filterMap_cons, List.filterMap_nil, hzero, if_true, List.filter_nil,
            List.map_nil, List.sum_nil, Nat.add_zero]
          by_cases hq : q ∧ b < n + 1
          · rw [if_pos hq]
            split_ifs with hlt
            · rfl
            · have hbn : ¬ b < n := fun hlt' => hlt ⟨hq.1, hlt'⟩
              exact (hlast b (by omega)).symm
          · rw [if_neg hq, if_neg fun hlt => hq ⟨hlt.1, by omega⟩]
        · have hsel := hp (bucketLo n) (bucketHi n) (buckets[n]?.getD 0)
          simp only [List.filterMap_cons, List.filterMap_nil, hzero, if_false]
          by_cases hq : q ∧ n = b
          · obtain ⟨hq, rfl⟩ := hq
            rw [List.filter_cons_of_pos (hsel.mpr ⟨hq, rfl⟩)]
            simp [hq, hcount]
          · have hneg : ¬ p (row (bucketLo n) (bucketHi n) (buckets[n]?.getD 0)) = true :=
              fun hh => hq ⟨(hsel.mp hh).1, bucketLo_inj (hsel.mp hh).2⟩
            rw [List.filter_cons_of_neg hneg]
            simp only [List.filter_nil, List.map_nil, List.sum_nil, Nat.add_zero]
            have hiff : (q ∧ b < n) ↔ (q ∧ b < n + 1) := by
              constructor
              · exact fun hh => ⟨hh.1, by omega⟩
              · rintro ⟨h1, h2⟩
                exact ⟨h1, lt_of_le_of_ne (by omega) fun he => hq ⟨h1, he.symm⟩⟩
            simp only [hiff]
  have hall := hfirst log2Buckets
  simp only [hb, and_true] at hall
  exact hall

section Loops

variable {α β : Type} {err : ℤ → WriteError} {query : ℕ → Except ℤ α} {rows : ℕ → α → List β}
  {g : ℕ → List β}

theorem collect_ok {n : ℕ} {r : List β} (h : collect err query rows n = .ok r)
    (hg : ∀ i < n, ∀ a, query i = .ok a → rows i a = g i) : r = (List.range n).flatMap g := by
  induction n generalizing r with
  | zero => exact (Except.ok.inj h).symm
  | succ n ih =>
      simp only [collect] at h
      cases hc : collect err query rows n with
      | error e => simp [hc] at h
      | ok before =>
          cases hq : query n with
          | error ret => simp [hc, hq] at h
          | ok reply =>
              simp only [hc, hq] at h
              rw [List.range_succ, List.flatMap_append, ← ih hc fun i hi => hg i (by omega),
                List.flatMap_singleton, ← hg n (by omega) reply hq]
              exact (Except.ok.inj h).symm

theorem collect_eq_ok {n : ℕ} (h : ∀ i < n, ∃ a, query i = .ok a) :
    ∃ r, collect err query rows n = .ok r := by
  induction n with
  | zero => exact ⟨[], rfl⟩
  | succ n ih =>
      obtain ⟨before, hb⟩ := ih fun i hi => h i (by omega)
      obtain ⟨reply, hq⟩ := h n (by omega)
      exact ⟨before ++ rows n reply, by simp only [collect, hb, hq]⟩

end Loops

section Queries

variable {α : Type} {s : Session} {u : UserCopy} {i : ℕ} {f : Thread → Except ℤ α} {req : α}

theorem queryThread_ok (h : queryThread s u i f = .ok req) :
    ∃ th, s.threads[i]? = some th ∧ f th = .ok req := by
  unfold queryThread rdFindThreadByIndex at h
  by_cases hfrom : u.fromUser = false
  · rw [if_pos hfrom] at h
    cases h
  rw [if_neg hfrom] at h
  cases hth : s.threads[i]? with
  | none =>
      rw [hth] at h
      cases h
  | some th =>
      rw [hth] at h
      dsimp only at h
      refine ⟨th, rfl, ?_⟩
      cases hf : f th with
      | error ret =>
          rw [hf] at h
          cases h
      | ok r =>
          rw [hf] at h
          dsimp only at h
          split_ifs at h
          exact h

theorem queryThread_eq {th : Thread} (hth : s.threads[i]? = some th) (hfrom : u.fromUser = true)
    (hto : u.toUser = true) (hf : f th = .ok req) : queryThread s u i f = .ok req := by
  simp [queryThread, rdFindThreadByIndex, hth, hfrom, hto, hf]

theorem queryThread_exists {th : Thread} (hth : s.threads[i]? = some th)
    (hfrom : u.fromUser = true) (hto : u.toUser = true) (hf : ∃ req, f th = .ok req) :
    ∃ req, queryThread s u i f = .ok req := by
  obtain ⟨req, hreq⟩ := hf
  exact ⟨req, queryThread_eq hth hfrom hto hreq⟩

end Queries

/-! ## The files of a completed run -/

def threadHistRows (s : Session) (th : Thread) : List HistRow :=
  (List.range s.targetCount).flatMap fun t =>
    bucketRows (HistRow.mk (targetPcOffset s t))
      ((List.range log2Buckets).map fun b => th.log2Hist[t * log2Buckets + b]?.getD 0)

def pairEntryRows (e : PairHistEntry) : List PairRow :=
  if e.used then bucketRows (PairRow.mk e.key) e.buckets else []

def threadPairRows (th : Thread) : List PairRow :=
  (List.range maxPairHists).flatMap fun i => ((th.pairHist[i]?).map pairEntryRows).getD []

theorem mem_bucketRows {α : Type} {row : ℕ → ℕ → ℕ → α} {buckets : List ℕ} {x : α} :
    x ∈ bucketRows row buckets ↔ ∃ b < log2Buckets, buckets[b]?.getD 0 ≠ 0 ∧
      x = row (bucketLo b) (bucketHi b) (buckets[b]?.getD 0) := by
  unfold bucketRows
  rw [List.mem_filterMap]
  constructor
  · rintro ⟨b, hb, hx⟩
    dsimp only at hx
    split_ifs at hx with hzero
    exact ⟨b, List.mem_range.mp hb, hzero, (Option.some.inj hx).symm⟩
  · rintro ⟨b, hb, hzero, rfl⟩
    exact ⟨b, List.mem_range.mpr hb, if_neg hzero⟩

theorem bucketRows_congr {α : Type} {row : ℕ → ℕ → ℕ → α} {x y : List ℕ}
    (h : ∀ b < log2Buckets, x[b]?.getD 0 = y[b]?.getD 0) : bucketRows row x = bucketRows row y := by
  unfold bucketRows
  apply List.filterMap_congr
  intro b hb
  simp only [h b (List.mem_range.mp hb)]

theorem sum_flatMap_filter {α β : Type} (l : List α) (g : α → List β) (p : β → Bool)
    (count : β → ℕ) : (((l.flatMap g).filter p).map count).sum =
      (l.map fun x => (((g x).filter p).map count).sum).sum := by
  induction l with
  | nil => rfl
  | cons x l ih =>
      rw [List.flatMap_cons, List.filter_append, List.map_append, List.sum_append, ih,
        List.map_cons, List.sum_cons]

theorem sum_map_ite_zero {α : Type} (l : List α) (p : α → Prop) [DecidablePred p] (v : α → ℕ) :
    (l.map fun x => if p x then v x else 0).sum = ((l.filter p).map v).sum := by
  induction l with
  | nil => rfl
  | cons x l ih => by_cases hx : p x <;> simp [hx, ih]

theorem histCount_threadHistRows (s : Session) (th : Thread) (offset : U64) {b : ℕ}
    (hb : b < log2Buckets) : histCount offset b (threadHistRows s th) = th.histCount s offset b := by
  unfold histCount threadHistRows Thread.histCount
  rw [sum_flatMap_filter, ← sum_map_ite_zero]
  refine congrArg List.sum (List.map_congr_left fun t _ => ?_)
  rw [sum_bucketRows (q := targetPcOffset s t = offset) (b := b) (fun _ _ _ => rfl)
    (fun _ _ _ => by simp) hb]
  simp [hb]

theorem pairCount_threadPairRows {th : Thread} (hlen : th.pairHist.length = maxPairHists)
    (key : PairKey) {b : ℕ} (hb : b < log2Buckets) :
    pairCount key b (threadPairRows th) = th.pairCount key b := by
  have hrows : (List.range maxPairHists).map (fun i =>
      pairCount key b (((th.pairHist[i]?).map pairEntryRows).getD [])) =
        th.pairHist.map fun e => pairCount key b (pairEntryRows e) := by
    apply List.ext_getElem
    · simp [hlen]
    · intro i hi hi'
      have hlt : i < th.pairHist.length := by simpa using hi'
      simp [List.getElem?_eq_getElem hlt]
  unfold Thread.pairCount
  rw [← sum_map_ite_zero]
  refine (sum_flatMap_filter _ _ _ _).trans ((congrArg List.sum hrows).trans ?_)
  refine congrArg List.sum (List.map_congr_left fun e _ => ?_)
  unfold pairCount pairEntryRows
  by_cases hu : e.used = true
  · rw [if_pos hu, sum_bucketRows (q := e.key = key) (b := b) (fun _ _ _ => rfl)
      (fun _ _ _ => by simp) hb]
    simp [hu]
  · simp [hu]

section Writer

variable {s : Session} {env : WriteEnv} {tid : ℤ} {i : ℕ} {th : Thread}

theorem rdGetHistLocked_rows (hth : s.threads[i]? = some th) {u : UserCopy} {t : ℕ} {req : HistReq}
    (h : rdGetHistLocked s u i t = .ok req) (offset : U64) :
    bucketRows (HistRow.mk offset) req.buckets = bucketRows (HistRow.mk offset)
      ((List.range log2Buckets).map fun b => th.log2Hist[t * log2Buckets + b]?.getD 0) := by
  obtain ⟨th', hth', hreq⟩ := queryThread_ok h
  obtain rfl : th = th' := Option.some.inj (hth.symm.trans hth')
  apply bucketRows_congr
  intro b hb
  split_ifs at hreq with hbad hnil
  · rw [← Except.ok.inj hreq]
    simp [hnil, hb]
  · rw [← Except.ok.inj hreq]
    simp [hb, List.getElem?_drop]

theorem rdGetPairHistLocked_rows (hth : s.threads[i]? = some th) {u : UserCopy} {n : ℕ}
    {req : PairHistReq} (h : rdGetPairHistLocked s u i n = .ok req) :
    (if req.used = false then [] else bucketRows (PairRow.mk ⟨req.seedPcOffset, req.seedContextId,
      req.reusePc, req.reuseContextId⟩) req.buckets) =
        ((th.pairHist[n]?).map pairEntryRows).getD [] := by
  obtain ⟨th', hth', hreq⟩ := queryThread_ok h
  obtain rfl : th = th' := Option.some.inj (hth.symm.trans hth')
  split_ifs at hreq with hbad
  cases he : th.pairHist[n]? with
  | none =>
      rw [he] at hreq
      rw [← Except.ok.inj hreq]
      rfl
  | some e =>
      rw [he] at hreq
      dsimp only at hreq
      by_cases hu : e.used = true
      · rw [if_pos hu] at hreq
        rw [← Except.ok.inj hreq]
        simp [pairEntryRows, hu, PairHistEntry.key]
      · rw [if_neg hu] at hreq
        rw [← Except.ok.inj hreq]
        simp [pairEntryRows, hu]

theorem writeThreadHistograms_ok (hth : s.threads[i]? = some th) {rows : List HistRow}
    (h : writeThreadHistograms s env tid i = .ok rows) : rows = threadHistRows s th := by
  unfold writeThreadHistograms at h
  split_ifs at h
  exact collect_ok h fun t _ req hreq => rdGetHistLocked_rows hth hreq (targetPcOffset s t)

theorem writeThreadPairHistograms_ok (hth : s.threads[i]? = some th) {rows : List PairRow}
    (h : writeThreadPairHistograms s env tid i = .ok rows) : rows = threadPairRows th := by
  unfold writeThreadPairHistograms at h
  split_ifs at h
  exact collect_ok h fun n _ req hreq => rdGetPairHistLocked_rows hth hreq

theorem writeThread_ok (hth : s.threads[i]? = some th) {files files' : ResultFiles}
    (h : writeThread s env files i = .ok files') :
    files' = ⟨put files.hist (th.tid, threadHistRows s th),
      put files.pair (th.tid, threadPairRows th)⟩ := by
  unfold writeThread at h
  cases hstats : rdGetThreadStatsLocked s (env.stats i) i with
  | error ret =>
      rw [hstats] at h
      cases h
  | ok stats =>
      rw [hstats] at h
      dsimp only at h
      have htid : stats.tid = th.tid := by
        obtain ⟨th', hth', hreq⟩ := queryThread_ok hstats
        obtain rfl : th = th' := Option.some.inj (hth.symm.trans hth')
        rw [← Except.ok.inj hreq]
        rfl
      cases hhist : writeThreadHistograms s env stats.tid i with
      | error e =>
          rw [hhist] at h
          cases h
      | ok hist =>
          cases hpair : writeThreadPairHistograms s env stats.tid i with
          | error e =>
              rw [hhist, hpair] at h
              cases h
          | ok pair =>
              rw [hhist, hpair] at h
              rw [← Except.ok.inj h, htid, writeThreadHistograms_ok hth hhist,
                writeThreadPairHistograms_ok hth hpair]

/-- After the first `n` contexts the directory holds the writes made for them. -/
theorem writeThreads_ok {n : ℕ} (hn : n ≤ s.threads.length) {files : ResultFiles}
    (h : writeThreads s env n = .ok files) :
    files = ⟨putAll [] ((s.threads.take n).map fun th => (th.tid, threadHistRows s th)),
      putAll [] ((s.threads.take n).map fun th => (th.tid, threadPairRows th))⟩ := by
  induction n generalizing files with
  | zero => exact (Except.ok.inj h).symm
  | succ n ih =>
      simp only [writeThreads] at h
      cases hprev : writeThreads s env n with
      | error e =>
          rw [hprev] at h
          cases h
      | ok before =>
          rw [hprev] at h
          have hget := List.getElem?_eq_getElem (show n < s.threads.length by omega)
          rw [writeThread_ok hget h, ih (by omega) hprev,
            List.take_succ_eq_append_getElem (by omega)]
          simp only [putAll, List.map_append, List.foldl_append, List.map_cons, List.map_nil,
            List.foldl_cons, List.foldl_nil]

theorem writeInfo_ok {files : ResultFiles} (h : writeInfo s env = .ok files) :
    files = ⟨putAll [] (s.threads.map fun th => (th.tid, threadHistRows s th)),
      putAll [] (s.threads.map fun th => (th.tid, threadPairRows th))⟩ := by
  unfold writeInfo rdGetLayoutLocked at h
  split_ifs at h
  have hall := writeThreads_ok le_rfl h
  rwa [List.take_length] at hall

theorem writeThreadHistograms_returns (henv : env.AllOk) (hth : s.threads[i]? = some th)
    (tid : ℤ) : ∃ rows, writeThreadHistograms s env tid i = .ok rows := by
  unfold writeThreadHistograms
  rw [if_neg (by simp [henv.openHist i])]
  refine collect_eq_ok fun t ht => ?_
  apply queryThread_exists hth (henv.hist i t).1 (henv.hist i t).2
  exact ⟨_, if_neg (by omega)⟩

theorem writeThread_returns (henv : env.AllOk) (hth : s.threads[i]? = some th)
    (files : ResultFiles) : ∃ files', writeThread s env files i = .ok files' := by
  have hstats : rdGetThreadStatsLocked s (env.stats i) i = .ok (threadStatsOf s i th) :=
    queryThread_eq hth (henv.stats i).1 (henv.stats i).2 rfl
  obtain ⟨hist, hhist⟩ := writeThreadHistograms_returns henv hth (threadStatsOf s i th).tid
  obtain ⟨pair, hpair⟩ : ∃ rows, writeThreadPairHistograms s env (threadStatsOf s i th).tid i =
      .ok rows := by
    unfold writeThreadPairHistograms
    rw [if_neg (by simp [henv.openPair i])]
    refine collect_eq_ok fun n hn => ?_
    have hquery : ∃ req, rdGetPairHistLocked s (env.pair i n) i n = .ok req := by
      apply queryThread_exists hth (henv.pair i n).1 (henv.pair i n).2
      rw [if_neg (by omega)]
      cases th.pairHist[n]? with
      | none => exact ⟨_, rfl⟩
      | some e =>
          dsimp only
          split_ifs <;> exact ⟨_, rfl⟩
    exact hquery
  unfold writeThread
  rw [hstats]
  dsimp only
  rw [hhist, hpair]
  exact ⟨_, rfl⟩

theorem writeInfo_returns (henv : env.AllOk) : ∃ files, writeInfo s env = .ok files := by
  have hthreads : ∀ n ≤ s.threads.length, ∃ files, writeThreads s env n = .ok files := by
    intro n hn
    induction n with
    | zero => exact ⟨_, rfl⟩
    | succ n ih =>
        obtain ⟨files, hf⟩ := ih (by omega)
        have hget := List.getElem?_eq_getElem (show n < s.threads.length by omega)
        simp only [writeThreads, hf]
        exact writeThread_returns henv hget files
  unfold writeInfo rdGetLayoutLocked
  rw [if_pos henv.layout]
  exact hthreads s.threads.length le_rfl

end Writer

/-! ## Completeness of the files -/

/-- Counts are zero together with the number of hits. -/
theorem Thread.histCount_eq_zero_iff {s : Session} {th : Thread} (hs : Shaped s.toSessionCtl th)
    (hok : ResultsOk s.toSessionCtl th) :
    (∀ offset, ∀ b < log2Buckets, th.histCount s offset b = 0) ↔ th.hits = 0 := by
  rw [← hok.hist_sum, List.sum_eq_zero_iff]
  constructor
  · intro h x hx
    -- the cell at `n` belongs to target `n / 64` and bucket `n % 64`
    obtain ⟨n, hn⟩ := List.mem_iff_getElem?.mp hx
    have hlt : n < s.targetCount * log2Buckets := hs.tables.1 ▸ (List.getElem?_eq_some_iff.mp hn).1
    have ht : n / log2Buckets < s.targetCount :=
      (Nat.div_lt_iff_lt_mul (by decide)).mpr hlt
    have hcell := List.sum_eq_zero_iff.mp
      (h (targetPcOffset s (n / log2Buckets)) (n % log2Buckets) (Nat.mod_lt n (by decide)))
    refine hcell x (List.mem_map.mpr ⟨n / log2Buckets, ?_, ?_⟩)
    · simpa using ht
    · rw [Nat.div_add_mod', hn]
      rfl
  · intro h offset b _
    refine List.sum_eq_zero_iff.mpr fun x hx => ?_
    obtain ⟨t, -, rfl⟩ := List.mem_map.mp hx
    cases hcell : th.log2Hist[t * log2Buckets + b]? with
    | none => rfl
    | some x => exact h x (List.mem_of_getElem? hcell)

theorem Thread.pairCount_eq_zero {s : Session} {th : Thread} (hok : ResultsOk s.toSessionCtl th)
    (hits : th.hits = 0) (key : PairKey) (b : ℕ) : th.pairCount key b = 0 := by
  have hmass : mass th.pairHist = 0 := by
    have := hok.pair_sum
    omega
  refine List.sum_eq_zero_iff.mpr fun x hx => ?_
  obtain ⟨e, he, rfl⟩ := List.mem_map.mp hx
  have htotal : e.total = 0 :=
    List.sum_eq_zero_iff.mp hmass _ (List.mem_map_of_mem (List.mem_filter.mp he).1)
  cases hcell : e.buckets[b]? with
  | none => rfl
  | some x => exact List.sum_eq_zero_iff.mp htotal x (List.mem_of_getElem? hcell)

/-- Every context that is followed by another one of its tid recorded nothing. -/
def Session.NoHitReplaced (s : Session) : Prop :=
  s.threads.Pairwise fun th th' => th.tid = th'.tid → th.hits = 0

/-- The weight of a directory that `write_info` filled, against the sum over the contexts. -/
theorem weight_threads {ν : Type} (ths : List Thread) (rows : Thread → ν) (w : ν → ℕ) :
    weight w (putAll [] (ths.map fun th => (th.tid, rows th))) =
        (ths.map fun th => w (rows th)).sum ↔
      ths.Pairwise fun th th' => th.tid = th'.tid → w (rows th) = 0 := by
  have hsum : weight w (ths.map fun th => (th.tid, rows th)) =
      (ths.map fun th => w (rows th)).sum := by
    unfold weight
    rw [List.map_map]
    rfl
  rw [weight_putAll, ← hsum]
  have hnil : weight w (([] : List (ℤ × ν)).filter fun g =>
      g.1 ∉ (ths.map fun th => (th.tid, rows th)).map Prod.fst) = 0 := rfl
  rw [hnil, Nat.zero_add, weight_surviving_eq_iff, List.pairwise_map]

theorem Session.Reachable.complete_iff {s : Session} (h : s.Reachable) {env : WriteEnv}
    {files : ResultFiles} (hfiles : writeInfo s env = .ok files) :
    files.Complete s ↔ s.NoHitReplaced := by
  rw [writeInfo_ok hfiles]
  have hhist : ∀ offset, ∀ b < log2Buckets,
      ((putAll [] (s.threads.map fun th => (th.tid, threadHistRows s th))).map
          fun f => histCount offset b f.2).sum = (s.threads.map fun th => th.histCount s offset b).sum ↔
        s.threads.Pairwise fun th th' => th.tid = th'.tid → th.histCount s offset b = 0 := by
    intro offset b hb
    have hw := weight_threads s.threads (threadHistRows s) (histCount offset b)
    simp only [histCount_threadHistRows s _ offset hb] at hw
    exact hw
  have hpair : ∀ key, ∀ b < log2Buckets,
      ((putAll [] (s.threads.map fun th => (th.tid, threadPairRows th))).map
          fun f => pairCount key b f.2).sum = (s.threads.map fun th => th.pairCount key b).sum ↔
        s.threads.Pairwise fun th th' => th.tid = th'.tid → pairCount key b (threadPairRows th) = 0 := by
    intro key b hb
    rw [← weight_threads s.threads threadPairRows (pairCount key b)]
    have hrows : (s.threads.map fun th => th.pairCount key b) =
        s.threads.map fun th => pairCount key b (threadPairRows th) := by
      refine List.map_congr_left fun th hth => (pairCount_threadPairRows ?_ key hb).symm
      simpa using congrArg List.length (h.shaped hth).tables.2.1
    rw [hrows]
    rfl
  constructor
  · rintro ⟨hall, -⟩
    refine List.pairwise_iff_getElem.mpr fun i j hi hj hij he => ?_
    have hmem := List.getElem_mem hi
    refine (Thread.histCount_eq_zero_iff (h.shaped hmem) (h.resultsOk hmem)).mp ?_
    intro offset b hb
    exact List.pairwise_iff_getElem.mp ((hhist offset b hb).mp (hall offset b hb)) i j hi hj hij he
  · intro hnone
    refine ⟨fun offset b hb => (hhist offset b hb).mpr ?_, fun key b hb => (hpair key b hb).mpr ?_⟩
    · refine hnone.imp_of_mem fun {th th'} hth _ hzero he => ?_
      exact (Thread.histCount_eq_zero_iff (h.shaped hth) (h.resultsOk hth)).mpr (hzero he)
        offset b hb
    · refine hnone.imp_of_mem fun {th th'} hth _ hzero he => ?_
      have hlen : th.pairHist.length = maxPairHists := by
        simpa using congrArg List.length (h.shaped hth).tables.2.1
      rw [pairCount_threadPairRows hlen key hb]
      exact Thread.pairCount_eq_zero (h.resultsOk hth) (hzero he) key b

/-- When all calls succeed `write_info` writes its files, and whenever it completes they hold the
counts of all contexts exactly when no context with a hit is replaced. -/
theorem result_files_complete_iff (s : Session) (h : s.Reachable) :
    (∀ env : WriteEnv, env.AllOk → ∃ files, writeInfo s env = .ok files) ∧
    ∀ env files, writeInfo s env = .ok files → (files.Complete s ↔ s.NoHitReplaced) :=
  ⟨fun _ henv => writeInfo_returns henv, fun _ _ hfiles => h.complete_iff hfiles⟩

def smallWriteEnv : WriteEnv where
  layout := ⟨true, true⟩
  stats := fun _ => ⟨true, true⟩
  openHist := fun _ => true
  hist := fun _ _ => ⟨true, true⟩
  openPair := fun _ => true
  pair := fun _ _ => ⟨true, true⟩

theorem smallWriteEnv_allOk : smallWriteEnv.AllOk :=
  ⟨rfl, fun _ => ⟨rfl, rfl⟩, fun _ => rfl, fun _ _ => ⟨rfl, rfl⟩, fun _ => rfl,
    fun _ _ => ⟨rfl, rfl⟩⟩

theorem histCount_small (ths : List Thread) {th : Thread} (hcell : th.log2Hist[2]? = some 1) :
    th.histCount ⟨(smallSession 0).toSessionCtl, ths⟩ 0x100 2 = 1 := by
  change ([0].map fun t => th.log2Hist[t * log2Buckets + 2]?.getD 0).sum = 1
  rw [List.map_singleton, Nat.zero_mul, Nat.zero_add, hcell]
  rfl

/-- The reuse of thread 7 is in its file. -/
theorem result_files_complete_small : ∃ files,
    writeInfo ⟨(smallSession 0).toSessionCtl, [hitThread 0]⟩ smallWriteEnv = .ok files ∧
    files.Complete ⟨(smallSession 0).toSessionCtl, [hitThread 0]⟩ ∧ (hitThread 0).hits = 1 ∧
    (files.hist.map fun f => histCount 0x100 2 f.2).sum = 1 := by
  have hreach : (⟨(smallSession 0).toSessionCtl, [hitThread 0]⟩ : Session).Reachable :=
    ⟨1, hitRun 0, hitRun_threads 0 (by decide)⟩
  obtain ⟨hret, hiff⟩ := result_files_complete_iff _ hreach
  obtain ⟨files, hfiles⟩ := hret smallWriteEnv smallWriteEnv_allOk
  have hcomplete : files.Complete ⟨(smallSession 0).toSessionCtl, [hitThread 0]⟩ :=
    (hiff smallWriteEnv files hfiles).mpr (List.pairwise_singleton _ _)
  obtain ⟨-, hhits, -⟩ := hitThread_spec 0 (by decide)
  have hcount := hcomplete.1 0x100 2 (by decide)
  rw [List.map_singleton, List.sum_singleton,
    histCount_small _ (hitThread_cell 0 (by decide))] at hcount
  exact ⟨files, hfiles, hcomplete, hhits, hcount⟩

def firstThread : Thread := newThread (smallSession 0).toSessionCtl smallThread

/-- A sampled load and two reports of its watchpoint, the second a reuse. -/
def sampledLoad : Hit := .bp 0 (some smallRegs) (smallHitEnv 5)
def skippedReport : Hit := .wp 0 (some smallRegs) (smallHitEnv 6)
def reuseReport : Hit := .wp 0 (some smallRegs) (smallHitEnv 9)

def reusingThread : Thread :=
  ((firstThread.hit (smallSession 0).toSessionCtl sampledLoad).hit (smallSession 0).toSessionCtl
    skippedReport).hit (smallSession 0).toSessionCtl reuseReport

theorem reusingThread_spec : reusingThread.hits = 1 ∧ reusingThread.tid = 7 ∧
    reusingThread.active = true ∧ reusingThread.liveDetached = false := by
  have hframe : reusingThread.frame = firstThread.frame := by
    unfold reusingThread
    rw [frame_hit, frame_hit, frame_hit]
  have hmeter : reusingThread.meter = ((firstThread.meter.hit (smallSession 0).meterCtl
      sampledLoad).hit (smallSession 0).meterCtl skippedReport).hit (smallSession 0).meterCtl
        reuseReport := by
    unfold reusingThread
    rw [meter_hit, meter_hit, meter_hit]
  have hproj : ∀ th : Thread, th.hits = th.meter.hits ∧ th.tid = th.frame.tid ∧
      th.active = th.frame.active ∧ th.liveDetached = th.frame.liveDetached :=
    fun _ => ⟨rfl, rfl, rfl, rfl⟩
  obtain ⟨hhits, htid, hactive, hlive⟩ := hproj reusingThread
  rw [hhits, htid, hactive, hlive, hmeter, hframe]
  exact ⟨by decide, rfl, rfl, rfl⟩

/-- Thread 7 records a reuse, leaves, and registers again. -/
def returningThread : List SessionEvent :=
  smallRun 0 ++ [.hit 0 sampledLoad, .hit 0 skippedReport, .hit 0 reuseReport,
    .ioctl (.unregisterThread 7), .ioctl (.registerThread smallThread smallEnv)]

theorem returningThread_threads : ((rdWpctlOpen 1).run returningThread).threads =
    [rdThreadDetachLive reusingThread, firstThread] := by
  obtain ⟨-, htid, hactive, hlive⟩ := reusingThread_spec
  have hstart : smallSession 0 = ⟨(smallSession 0).toSessionCtl, [firstThread]⟩ := rfl
  have hhits : ∀ (c : SessionCtl) (th : Thread) (a b d : Hit),
      (⟨c, [th]⟩ : Session).run [.hit 0 a, .hit 0 b, .hit 0 d] =
        ⟨c, [((th.hit c a).hit c b).hit c d]⟩ := fun _ _ _ _ _ => rfl
  have hleave : ∀ (c : SessionCtl) (th : Thread), th.tid = 7 → th.active = true →
      (⟨c, [th]⟩ : Session).step (.ioctl (.unregisterThread 7)) = ⟨c, [rdThreadDetachLive th]⟩ := by
    intro c th ht ha
    simp [Session.step, rdWpctlIoctl, rdUnregisterThreadLocked, rdFindActiveThreadByTid, ht, ha]
  have hreturn : ∀ th : Thread, th.active = false →
      ((⟨(smallSession 0).toSessionCtl, [th]⟩ : Session).step
        (.ioctl (.registerThread smallThread smallEnv))).threads = [th, firstThread] := by
    intro th ha
    have hok : RegisterOk ⟨(smallSession 0).toSessionCtl, [th]⟩ smallThread smallEnv :=
      ⟨rfl, rfl, by simp [rdFindActiveThreadByTid, ha], by decide, ⟨⟨1, [0]⟩, rfl, rfl, by decide⟩,
        rfl, rfl, rfl, rfl, rfl⟩
    simp only [Session.step, rdWpctlIoctl, rdRegisterThreadLocked_of_ok hok]
    rfl
  have hrun : (rdWpctlOpen 1).run returningThread =
      (((smallSession 0).run [.hit 0 sampledLoad, .hit 0 skippedReport, .hit 0 reuseReport]).step
        (.ioctl (.unregisterThread 7))).step (.ioctl (.registerThread smallThread smallEnv)) := by
    have hlast : ∀ (s : Session) (a b d e f : SessionEvent),
        s.run [a, b, d, e, f] = ((s.run [a, b, d]).step e).step f := fun _ _ _ _ _ _ => rfl
    have happ : ∀ (s : Session) (es es' : List SessionEvent), s.run (es ++ es') = (s.run es).run es' :=
      fun _ _ _ => List.foldl_append
    rw [returningThread, happ, hlast, smallSession]
  have hfold : ((firstThread.hit (smallSession 0).toSessionCtl sampledLoad).hit
      (smallSession 0).toSessionCtl skippedReport).hit (smallSession 0).toSessionCtl reuseReport =
        reusingThread := rfl
  rw [hrun, hstart, hhits, hfold, hleave _ _ htid hactive, hreturn]
  simp [rdThreadDetachLive, hlive]

/-- The second file of thread 7 replaces the first, which held its reuse. -/
theorem result_files_incomplete : ∃ files,
    writeInfo ((rdWpctlOpen 1).run returningThread) smallWriteEnv = .ok files ∧
      ¬ files.Complete ((rdWpctlOpen 1).run returningThread) := by
  obtain ⟨files, hfiles⟩ :=
    writeInfo_returns (s := (rdWpctlOpen 1).run returningThread) smallWriteEnv_allOk
  refine ⟨files, hfiles, ?_⟩
  have hreach : ((rdWpctlOpen 1).run returningThread).Reachable := ⟨1, returningThread, rfl⟩
  have hdetach : ∀ th : Thread, (rdThreadDetachLive th).tid = th.tid ∧
      (rdThreadDetachLive th).hits = th.hits := by
    intro th
    unfold rdThreadDetachLive
    split_ifs <;> exact ⟨rfl, rfl⟩
  have htids : (rdThreadDetachLive reusingThread).tid = firstThread.tid :=
    (hdetach reusingThread).1.trans reusingThread_spec.2.1
  have hhits : (rdThreadDetachLive reusingThread).hits = 1 :=
    (hdetach reusingThread).2.trans reusingThread_spec.1
  rw [hreach.complete_iff hfiles]
  intro hnone
  have hpair : ∀ {s : Session} {a b : Thread}, s.threads = [a, b] → s.NoHitReplaced →
      a.tid = b.tid → a.hits = 0 := by
    intro s a b hs hn
    unfold Session.NoHitReplaced at hn
    rw [hs, List.pairwise_pair] at hn
    exact hn
  have hzero := hpair returningThread_threads hnone htids
  rw [hhits] at hzero
  cases hzero

end RdSpeTool
