import Mathlib.Data.List.AList
import RdSpeTool.DwarfPipeline
import RdSpeTool.Log2Buckets
import RdSpeTool.ModuleMaps

/-!
# Buckets of the post-processing

The resolver rebuilds the interval of an event from its bucket number, and the plot pads the
buckets of histogram files to a gapless list. Both take a bucket to be one power of two wide, which
the saturated last bucket of the runtime is not.
-/

namespace RdSpeTool

open IntervalChain Resolver

namespace Resolver

/-- The bounds `main` derives from `event.bucket`. -/
def eventBounds (ev : Event) : ℕ × ℕ :=
  let bucket := (if ev.bucket = 0 then 0 else 1 <<< (ev.bucket - 1),
    if ev.bucket = 0 then 0 else (1 <<< ev.bucket) - 1)
  if ev.bucket = 1 then (1, 1) else bucket

def bucketIndexFromBounds (lo hi : ℕ) : ℕ :=
  if lo = 0 ∧ hi = 0 then 0 else if lo = 1 ∧ hi = 1 then 1 else Nat.size lo

theorem eventBounds_eq (ev : Event) : eventBounds ev = (bucketLo ev.bucket, 2 ^ ev.bucket - 1) := by
  unfold eventBounds
  cases ev.bucket with
  | zero => rfl
  | succ k =>
      rw [bucketLo_succ]
      cases k with
      | zero => rfl
      | succ k => simp [Nat.one_shiftLeft]

theorem bucketIndexFromBounds_eq (b : ℕ) :
    bucketIndexFromBounds (bucketLo b) (2 ^ b - 1) = b := by
  cases b with
  | zero => rfl
  | succ k =>
      rw [bucketLo_succ]
      have hpos := Nat.two_pow_pos k
      cases k with
      | zero => rfl
      | succ k =>
          have htwo : 2 ≤ 2 ^ (k + 1) := by
            rw [pow_succ]
            have := Nat.two_pow_pos k
            omega
          unfold bucketIndexFromBounds
          rw [if_neg (by omega), if_neg (by omega), Nat.size_pow]

end Resolver

/-! ## One event -/

/-- The resolver's bounds of an event contain its distance, are those of the text files and lead
back to the kernel's bucket. -/
structure BoundsAgree (e : DwarfEvent) (ev : Event) : Prop where
  contains : (eventBounds ev).1 ≤ ev.delta ∧ ev.delta ≤ (eventBounds ev).2
  rawText : eventBounds ev = ((dwarfRow e).lo, (dwarfRow e).hi)
  histText : eventBounds ev = (bucketLo (rdLog2Bucket e.delta), bucketHi (rdLog2Bucket e.delta))
  index : bucketIndexFromBounds (eventBounds ev).1 (eventBounds ev).2 = rdLog2Bucket e.delta

theorem boundsAgree_iff {e : DwarfEvent} (hbucket : e.bucket = rdLog2Bucket e.delta)
    (slack : Slack) : BoundsAgree e (e.offline slack) ↔ e.delta.toNat < 2 ^ 62 := by
  have hbounds : eventBounds (e.offline slack) =
      (bucketLo (rdLog2Bucket e.delta), 2 ^ rdLog2Bucket e.delta - 1) := by
    rw [eventBounds_eq]
    change (bucketLo e.bucket, 2 ^ e.bucket - 1) = _
    rw [hbucket]
  have hrow : ((dwarfRow e).lo, (dwarfRow e).hi) =
      (bucketLo (rdLog2Bucket e.delta), bucketHi (rdLog2Bucket e.delta)) := by
    rw [← hbucket]
    rfl
  rw [← rdLog2Bucket_lt_last]
  constructor
  · intro h
    by_contra hlast
    have heq : rdLog2Bucket e.delta = 63 := by
      have := rdLog2Bucket_le e.delta
      omega
    have hhist := h.histText
    rw [hbounds, heq] at hhist
    exact absurd (congrArg Prod.snd hhist) (by decide)
  · intro hlt
    have hhi : 2 ^ rdLog2Bucket e.delta - 1 = bucketHi (rdLog2Bucket e.delta) := by
      have := bucketHi_add_one hlt
      omega
    refine ⟨?_, ?_, ?_, ?_⟩
    · rw [hbounds, hhi]
      exact mem_interval_rdLog2Bucket e.delta
    · rw [hbounds, hrow, hhi]
    · rw [hbounds, hhi]
    · rw [hbounds]
      exact bucketIndexFromBounds_eq _

/-- A stored event carries the bucket of its distance. -/
theorem bucket_of_recorded (tgid : ℤ) (es : List SessionEvent) {k : ℕ} {th : Thread}
    (hth : ((rdWpctlOpen tgid).run es).threads[k]? = some th) {arr : List DwarfEvent}
    (harr : th.dwarfEvents = some arr) {e : DwarfEvent} (he : e ∈ arr) (hused : e.used = true) :
    e.bucket = rdLog2Bucket e.delta := by
  have hreach : ((rdWpctlOpen tgid).run es).Reachable := ⟨tgid, es, rfl⟩
  have hmode : ((rdWpctlOpen tgid).run es).callchainMode = .dwarf := by
    have htables := (hreach.shaped (List.mem_of_getElem? hth)).tables.2.2.2
    by_contra hmode
    rw [harr, if_neg hmode] at htables
    cases htables
  obtain ⟨l, htrail⟩ := trail_run tgid es hth hmode
  obtain ⟨n, hn⟩ := List.mem_iff_getElem?.mp he
  obtain ⟨-, t, r, env, i, regs, env', -, -, -, -, hjoins⟩ := htrail.events arr harr n e hn hused
  exact hjoins.bucket

/-! ## The plot -/

namespace PlotRdHist

abbrev Counts := AList fun _ : ℕ × ℕ => ℕ

/-- The loop of `log2_buckets_through`, which doubles its lower bound. -/
def log2BucketsFrom (target : ℤ) (lo : ℕ) (hlo : 0 < lo) : List (ℕ × ℕ) :=
  let hi := (lo <<< 1) - 1
  if (hi : ℤ) ≥ target then [(lo, hi)]
  else
    (lo, hi) :: log2BucketsFrom target (lo <<< 1) (by
      rw [Nat.shiftLeft_eq]
      omega)
termination_by (target - lo).toNat
decreasing_by
  rename_i h
  simp only [hi, Nat.shiftLeft_eq] at h ⊢
  omega

def log2BucketsThrough (delta : ℤ) : List (ℕ × ℕ) :=
  [(0, 0), (1, 1)] ++ log2BucketsFrom (max 1 delta) 2 (by decide)

def dataMax (counts : Counts) : ℕ := (counts.keys.map Prod.snd).foldr max 0

def paddedBuckets (counts : Counts) (xMaxRd : ℤ) : List (ℕ × ℕ) :=
  sortedSet (log2BucketsThrough (max (dataMax counts : ℤ) xMaxRd) ++ counts.keys)

/-- The `pc_offset` column of a row. -/
def pcText (r : HistRow) : Text := '0' :: 'x' :: hexU64 r.pcOffset

def selects (pcOffset : Option Text) (r : HistRow) : Bool :=
  match pcOffset with
  | none => true
  | some offset => (pcText r).map Char.toLower = offset.map Char.toLower

def addRow (pcOffset : Option Text) (counts : Counts) (r : HistRow) : Counts :=
  if selects pcOffset r then
    counts.insert (r.lo, r.hi) ((counts.lookup (r.lo, r.hi)).getD 0 + r.count)
  else counts

def parseHistograms (files : List (List HistRow)) (pcOffset : Option Text) : Counts :=
  files.foldl (fun counts rows => rows.foldl (addRow pcOffset) counts) ∅

def plottedRows (files : List (List HistRow)) (pcOffset : Option Text) : List HistRow :=
  files.flatten.filter (selects pcOffset)

theorem mem_addRows (pcOffset : Option Text) (rows : List HistRow) (counts : Counts)
    (i : ℕ × ℕ) : i ∈ rows.foldl (addRow pcOffset) counts ↔
      i ∈ counts ∨ ∃ r ∈ rows.filter (selects pcOffset), (r.lo, r.hi) = i := by
  induction rows generalizing counts with
  | nil => simp
  | cons r rows ih =>
      rw [List.foldl_cons, ih, addRow]
      by_cases hsel : selects pcOffset r = true
      · rw [if_pos hsel, AList.mem_insert, List.filter_cons_of_pos hsel]
        simp only [List.exists_mem_cons_iff, eq_comm (a := i)]
        tauto
      · rw [if_neg hsel, List.filter_cons_of_neg hsel]

theorem mem_parseHistograms (files : List (List HistRow)) (pcOffset : Option Text) (i : ℕ × ℕ) :
    i ∈ (parseHistograms files pcOffset).keys ↔
      ∃ r ∈ plottedRows files pcOffset, (r.lo, r.hi) = i := by
  rw [← AList.mem_keys, parseHistograms, ← List.foldl_flatten, mem_addRows, plottedRows]
  simp

theorem le_dataMax {counts : Counts} {i : ℕ × ℕ} (hi : i ∈ counts.keys) : i.2 ≤ dataMax counts :=
  List.le_max_of_le' 0 (List.mem_map_of_mem hi) le_rfl

/-! ## The gapless list -/

section Loop

variable (target : ℤ) (lo : ℕ) (hlo : 0 < lo)

theorem chained_log2BucketsFrom : Chained lo (log2BucketsFrom target lo hlo) := by
  induction lo, hlo using log2BucketsFrom.induct target with
  | case1 lo hlo hi hge =>
      rw [log2BucketsFrom.eq_def, if_pos hge]
      refine ⟨rfl, ?_, trivial⟩
      rw [Nat.shiftLeft_eq]
      omega
  | case2 lo hlo hi hlt ih =>
      rw [log2BucketsFrom.eq_def, if_neg hlt]
      have hnext : hi + 1 = lo <<< 1 := by
        simp only [hi, Nat.shiftLeft_eq]
        omega
      refine ⟨rfl, ?_, ?_⟩
      · simp only [Nat.shiftLeft_eq]
        omega
      · rw [hnext]
        exact ih

theorem exists_ge_log2BucketsFrom : ∃ i ∈ log2BucketsFrom target lo hlo, target ≤ i.2 := by
  induction lo, hlo using log2BucketsFrom.induct target with
  | case1 lo hlo hi hge =>
      rw [log2BucketsFrom.eq_def, if_pos hge]
      exact ⟨(lo, hi), List.mem_singleton_self _, hge⟩
  | case2 lo hlo hi hlt ih =>
      rw [log2BucketsFrom.eq_def, if_neg hlt]
      obtain ⟨i, hmem, hle⟩ := ih
      exact ⟨i, List.mem_cons_of_mem _ hmem, hle⟩

/-- The loop visits every power-of-two interval up to its target. -/
theorem mem_log2BucketsFrom (d : ℕ) (hd : ((lo * 2 ^ (d + 1) : ℕ) : ℤ) - 1 ≤ target) :
    (lo * 2 ^ d, lo * 2 ^ (d + 1) - 1) ∈ log2BucketsFrom target lo hlo := by
  induction d generalizing lo with
  | zero =>
      rw [log2BucketsFrom.eq_def]
      simp only [Nat.shiftLeft_eq, pow_zero, mul_one, zero_add]
      split_ifs
      · exact List.mem_singleton_self _
      · exact List.mem_cons_self
  | succ d ih =>
      have hstep : lo <<< 1 * 2 ^ (d + 1) = lo * 2 ^ (d + 1 + 1) := by
        rw [Nat.shiftLeft_eq, pow_succ 2 (d + 1)]
        ring
      have hhead : lo <<< 1 * 2 ^ d = lo * 2 ^ (d + 1) := by
        rw [Nat.shiftLeft_eq, pow_succ]
        ring
      have hlt : ¬ ((lo <<< 1 - 1 : ℕ) : ℤ) ≥ target := by
        have hgrow : lo <<< 1 * 2 ≤ lo * 2 ^ (d + 1 + 1) := by
          rw [← hstep, pow_succ]
          have := Nat.two_pow_pos d
          exact Nat.mul_le_mul_left _ (by omega)
        rw [Nat.shiftLeft_eq] at hgrow ⊢
        omega
      rw [log2BucketsFrom.eq_def, if_neg hlt]
      have hrest := ih (lo <<< 1) (by rw [Nat.shiftLeft_eq]; omega) (by rw [hstep]; exact hd)
      rw [hhead, hstep] at hrest
      exact List.mem_cons_of_mem _ hrest

end Loop

theorem chained_log2BucketsThrough (delta : ℤ) : Chained 0 (log2BucketsThrough delta) :=
  ⟨rfl, le_rfl, rfl, le_rfl, chained_log2BucketsFrom _ 2 _⟩

theorem exists_ge_log2BucketsThrough (delta : ℤ) :
    ∃ i ∈ log2BucketsThrough delta, delta ≤ i.2 := by
  obtain ⟨i, hmem, hle⟩ := exists_ge_log2BucketsFrom (max 1 delta) 2 (by decide)
  exact ⟨i, List.mem_append_right _ hmem, (le_max_right 1 delta).trans hle⟩

/-- The printed interval of an unsaturated bucket is on the list if its end is. -/
theorem mem_log2BucketsThrough {b : ℕ} (hb : b < 63) {delta : ℤ} (hd : (bucketHi b : ℤ) ≤ delta) :
    (bucketLo b, bucketHi b) ∈ log2BucketsThrough delta := by
  have hnext := bucketHi_add_one hb
  rcases b with _ | _ | d
  · exact List.mem_cons_self
  · exact List.mem_cons_of_mem _ List.mem_cons_self
  · change bucketHi (d + 2) + 1 = 2 ^ (d + 2) at hnext
    change (bucketHi (d + 2) : ℤ) ≤ delta at hd
    apply List.mem_append_right
    have hlo : bucketLo (d + 2) = 2 * 2 ^ d := bucketLo_add_two d
    have hpow : 2 ^ (d + 2) = 2 * 2 ^ (d + 1) := by rw [pow_succ, mul_comm]
    have hhi : bucketHi (d + 2) = 2 * 2 ^ (d + 1) - 1 := by omega
    rw [hlo, hhi]
    apply mem_log2BucketsFrom
    have := le_max_right 1 delta
    omega

/-- What the padding promises: sorted, disjoint, with every bucket of the data and without a gap
up to the larger of the data's end and the wanted end. -/
structure PaddingOk (counts : Counts) (xMaxRd : ℤ) : Prop where
  sorted : (paddedBuckets counts xMaxRd).Pairwise PairLe
  disjoint : (paddedBuckets counts xMaxRd).Pairwise Apart
  contains : ∀ i ∈ counts.keys, i ∈ paddedBuckets counts xMaxRd
  covers : ∀ x : ℕ, (x : ℤ) ≤ max (dataMax counts : ℤ) xMaxRd →
    ∃ i ∈ paddedBuckets counts xMaxRd, i.1 ≤ x ∧ x ≤ i.2

/-- On buckets of the runtime the padding is right unless the saturated one is among them. -/
theorem paddingOk_iff {counts : Counts} (xMaxRd : ℤ)
    (h : ∀ i ∈ counts.keys, ∃ b ≤ 63, i = (bucketLo b, bucketHi b)) :
    PaddingOk counts xMaxRd ↔ (bucketLo 63, bucketHi 63) ∉ counts.keys := by
  have hchain := chained_log2BucketsThrough (max (dataMax counts : ℤ) xMaxRd)
  have hmem : ∀ i, i ∈ paddedBuckets counts xMaxRd ↔
      i ∈ log2BucketsThrough (max (dataMax counts : ℤ) xMaxRd) ∨ i ∈ counts.keys := by
    intro i
    rw [paddedBuckets, mem_sortedSet, List.mem_append]
  constructor
  · intro hok hlast
    have hend : (bucketHi 63 : ℤ) ≤ max (dataMax counts : ℤ) xMaxRd :=
      le_max_of_le_left (Int.ofNat_le.mpr (le_dataMax hlast))
    -- the loop went past the saturated bucket and lists its lower half
    have hhalf : (2 * 2 ^ 61, 2 * 2 ^ 62 - 1) ∈
        log2BucketsThrough (max (dataMax counts : ℤ) xMaxRd) := by
      apply List.mem_append_right
      apply mem_log2BucketsFrom
      apply le_trans _ (le_max_of_le_right hend)
      decide
    have hapart := hok.disjoint.forall ((hmem _).mpr (.inl hhalf)) ((hmem _).mpr (.inr hlast))
      (by decide)
    exact hapart (2 ^ 62) ⟨by decide, by decide⟩
  · intro hlast
    have hsub : ∀ i ∈ counts.keys, i ∈ log2BucketsThrough (max (dataMax counts : ℤ) xMaxRd) := by
      intro i hi
      obtain ⟨b, hb, rfl⟩ := h i hi
      have hne : b ≠ 63 := by
        rintro rfl
        exact hlast hi
      apply mem_log2BucketsThrough (by omega)
      exact le_max_of_le_left (Int.ofNat_le.mpr (le_dataMax hi))
    refine ⟨sortedSet_sorted _, ?_, fun i hi => (hmem i).mpr (.inr hi), ?_⟩
    · apply hchain.sortedSet_apart
      intro i hi
      exact (List.mem_append.mp hi).elim id (hsub i)
    · intro x hx
      obtain ⟨i, hi, hend⟩ := exists_ge_log2BucketsThrough (max (dataMax counts : ℤ) xMaxRd)
      have hxi : x ≤ i.2 := Int.ofNat_le.mp (hx.trans hend)
      obtain ⟨j, hj, hin⟩ := hchain.covers hi (Nat.zero_le x) hxi
      exact ⟨j, (hmem j).mpr (.inl hj), hin⟩

end PlotRdHist

open PlotRdHist

theorem mem_collect {α β : Type} {err : ℤ → WriteError} {query : ℕ → Except ℤ α}
    {rows : ℕ → α → List β} {n : ℕ} {r : List β} (h : collect err query rows n = .ok r) {x : β}
    (hx : x ∈ r) : ∃ i a, x ∈ rows i a := by
  have hr : r = (List.range n).flatMap fun i => ((query i).toOption.map (rows i)).getD [] := by
    apply collect_ok h
    intro i _ a ha
    rw [ha]
    rfl
  rw [hr] at hx
  obtain ⟨i, -, hi⟩ := List.mem_flatMap.mp hx
  cases hq : (query i).toOption with
  | none =>
      rw [hq] at hi
      cases hi
  | some a =>
      rw [hq] at hi
      exact ⟨i, a, hi⟩

theorem interval_of_written {s : Session} {env : WriteEnv} {tid : ℤ} {i : ℕ} {rows : List HistRow}
    (h : writeThreadHistograms s env tid i = .ok rows) {r : HistRow} (hr : r ∈ rows) :
    ∃ b ≤ 63, (r.lo, r.hi) = (bucketLo b, bucketHi b) := by
  unfold writeThreadHistograms at h
  split_ifs at h
  obtain ⟨t, req, hmem⟩ := mem_collect h hr
  obtain ⟨b, hb, he⟩ := List.mem_filterMap.mp hmem
  have hlt : b < 64 := List.mem_range.mp hb
  dsimp only at he
  split_ifs at he
  cases he
  exact ⟨b, by omega, rfl⟩

def WrittenHist (rows : List HistRow) : Prop :=
  ∃ s env tid i, writeThreadHistograms s env tid i = .ok rows

/-- The resolver's bounds of a recorded event agree with the runtime exactly when the distance is
below the saturated bucket, and the padded list of a plot is sound exactly when no plotted row is
of that bucket. -/
theorem postproc_buckets_agree_iff (tgid : ℤ) (es : List SessionEvent)
    (files : List (List HistRow)) (pcOffset : Option Text) (xMaxRd : ℤ)
    (hfiles : ∀ rows ∈ files, WrittenHist rows) :
    (∀ (k : ℕ) (th : Thread) (arr : List DwarfEvent) (e : DwarfEvent) (slack : Slack),
      ((rdWpctlOpen tgid).run es).threads[k]? = some th → th.dwarfEvents = some arr → e ∈ arr →
      e.used = true → (BoundsAgree e (e.offline slack) ↔ e.delta.toNat < 2 ^ 62)) ∧
    (PaddingOk (parseHistograms files pcOffset) xMaxRd ↔
      ∀ r ∈ plottedRows files pcOffset, r.lo ≠ 2 ^ 62) := by
  constructor
  · intro k th arr e slack hth harr he hused
    exact boundsAgree_iff (bucket_of_recorded tgid es hth harr he hused) slack
  · have hrow : ∀ r ∈ plottedRows files pcOffset, ∃ b ≤ 63,
        (r.lo, r.hi) = (bucketLo b, bucketHi b) := by
      intro r hr
      obtain ⟨rows, hrows, hmem⟩ := List.mem_flatten.mp (List.mem_of_mem_filter hr)
      obtain ⟨s, env, tid, i, hwrite⟩ := hfiles rows hrows
      exact interval_of_written hwrite hmem
    have hkeys : ∀ i ∈ (parseHistograms files pcOffset).keys, ∃ b ≤ 63,
        i = (bucketLo b, bucketHi b) := by
      intro i hi
      obtain ⟨r, hr, rfl⟩ := (mem_parseHistograms files pcOffset i).mp hi
      exact hrow r hr
    rw [paddingOk_iff xMaxRd hkeys, mem_parseHistograms]
    constructor
    · intro h r hr hlo
      obtain ⟨b, hb, he⟩ := hrow r hr
      have hlast : bucketLo b = bucketLo 63 := (congrArg Prod.fst he).symm.trans hlo
      have hb63 : b = 63 := bucketLo_inj hlast
      exact h ⟨r, hr, hb63 ▸ he⟩
    · rintro h ⟨r, hr, he⟩
      exact h r hr (congrArg Prod.fst he)

/-- A thread whose only slot was seeded at reading 5 and has reported its own access. -/
def seededThread : Thread :=
  [Hit.bp 0 (some smallRegs) (smallHitEnv 5), .wp 0 (some smallRegs) (smallHitEnv 6)].foldl
    (fun th ht => th.hit (smallSession 2).toSessionCtl ht)
    (newThread (smallSession 2).toSessionCtl smallThread)

def reuseThread (reading : U64) : Thread :=
  rdHandleWpHit (smallSession 2).toSessionCtl seededThread 0 (some smallRegs) (smallHitEnv reading)

def reuseRun (reading : U64) : List SessionEvent :=
  smallRun 2 ++ [.hit 0 (.bp 0 (some smallRegs) (smallHitEnv 5)),
    .hit 0 (.wp 0 (some smallRegs) (smallHitEnv 6)),
    .hit 0 (.wp 0 (some smallRegs) (smallHitEnv reading))]

theorem reuseRun_threads (reading : U64) :
    ((rdWpctlOpen 1).run (reuseRun reading)).threads[0]? = some (reuseThread reading) := rfl

theorem seededThread_tables :
    seededThread.tables = (newThread (smallSession 2).toSessionCtl smallThread).tables := by
  have hbp := tables_rdHandleBpHit (smallSession 2).toSessionCtl
    (newThread (smallSession 2).toSessionCtl smallThread) 0 (some smallRegs) (smallHitEnv 5)
  have hmeter := meter_rdHandleBpHit (smallSession 2).toSessionCtl
    (newThread (smallSession 2).toSessionCtl smallThread) 0 (some smallRegs) (smallHitEnv 5)
  change (rdHandleWpHit _ (rdHandleBpHit _ _ 0 _ _) 0 _ _).tables = _
  rw [← hbp]
  generalize rdHandleBpHit _ _ 0 _ _ = th at hmeter ⊢
  rcases tables_rdHandleWpHit (smallSession 2).toSessionCtl th 0 (some smallRegs) (smallHitEnv 6)
    with ⟨-, h⟩ | ⟨slot, a, ctx, event, -, h, -⟩
  · exact h
  · rw [hmeter] at h
    cases h

theorem seededThread_recorded (reading : U64) :
    (seededThread.meter.recorded (smallSession 2).toSessionCtl.meterCtl 0
      (smallHitEnv reading)).map (fun p => (p.1.seedAccess, p.2)) = some (5, reading) := by
  rw [seededThread, meter_hits]
  rfl

/-- The only event of the run. -/
theorem exists_event_reuseThread (reading : U64) : ∃ e,
    (reuseThread reading).dwarfEvents = some [e] ∧ e.used = true ∧ e.delta = reuseDelta 5 reading := by
  have hrec := seededThread_recorded reading
  have htables := seededThread_tables
  rcases tables_rdHandleWpHit (smallSession 2).toSessionCtl seededThread 0 (some smallRegs)
    (smallHitEnv reading) with ⟨hnone, -⟩ | ⟨slot, a, ctx, event, -, hsome, -, hevent, h⟩
  · rw [hnone] at hrec
    cases hrec
  · rw [hsome, Option.map_some, Option.some.injEq, Prod.mk.injEq] at hrec
    rw [htables] at h
    refine ⟨event 0, ?_, ?_, ?_⟩
    · have hkept := Tables.addPair_events (newThread (smallSession 2).toSessionCtl smallThread).tables
        ⟨slot.seedPcOffset, slot.seedContextId, ((some smallRegs).map PtRegs.pc).getD 0, ctx⟩
        (rdLog2Bucket (reuseDelta slot.seedAccess a))
      change (reuseThread reading).tables.dwarfEvents = _
      rw [reuseThread, h]
      unfold Tables.addEvent
      rw [hkept.1, hkept.2.1]
      rfl
    · rw [hevent]
      rfl
    · rw [hevent]
      exact congrArg₂ reuseDelta hrec.1 hrec.2

/-- The file of a thread whose only reuse is at distance 3 has one row. -/
theorem threadHistRows_small (ths : List Thread) {th : Thread}
    (hhist : th.log2Hist = (List.replicate log2Buckets 0).set 2 1) {r : HistRow} :
    r ∈ threadHistRows ⟨(smallSession 2).toSessionCtl, ths⟩ th ↔ r = ⟨0x100, 2, 3, 1⟩ := by
  have hcells : ((List.range log2Buckets).map fun b => th.log2Hist[0 * log2Buckets + b]?.getD 0) =
      (List.replicate log2Buckets 0).set 2 1 := by
    rw [hhist]
    decide
  have hrows : threadHistRows ⟨(smallSession 2).toSessionCtl, ths⟩ th =
      bucketRows (HistRow.mk 0x100) ((List.replicate log2Buckets 0).set 2 1) := by
    rw [← hcells]
    exact List.flatMap_singleton ..
  have hone : bucketRows (HistRow.mk 0x100) ((List.replicate log2Buckets 0).set 2 1) =
      [⟨0x100, 2, 3, 1⟩] := rfl
  rw [hrows, hone, List.mem_singleton]

/-- The event of the recorded run and the plot of its file. -/
theorem postproc_buckets_agree_iff_small : ∃ (e : DwarfEvent) (rows : List HistRow),
    (hitThread 2).dwarfEvents = some [e] ∧ e.delta = 3 ∧
    (∀ slack, BoundsAgree e (e.offline slack)) ∧ WrittenHist rows ∧
    ⟨0x100, 2, 3, 1⟩ ∈ plottedRows [rows] none ∧ PaddingOk (parseHistograms [rows] none) 20 := by
  obtain ⟨e, harr, ⟨hused, -, hdelta⟩, -⟩ := hitThread_events
  have hthread : ((rdWpctlOpen 1).run (hitRun 2)).threads[0]? = some (hitThread 2) := by
    rw [hitRun_threads 2 (by decide)]
    rfl
  have hself : (⟨(smallSession 2).toSessionCtl, [hitThread 2]⟩ : Session).threads[0]? =
      some (hitThread 2) := rfl
  obtain ⟨rows, hwrite⟩ := writeThreadHistograms_returns smallWriteEnv_allOk hself 7
  have hwritten : WrittenHist rows := ⟨_, _, _, _, hwrite⟩
  have hrow : ∀ r, r ∈ rows ↔ r = ⟨0x100, 2, 3, 1⟩ := by
    intro r
    rw [writeThreadHistograms_ok hself hwrite]
    exact threadHistRows_small _ (hitThread_log2Hist 2 (by decide))
  obtain ⟨hevents, hplot⟩ := postproc_buckets_agree_iff 1 (hitRun 2) [rows] none 20
    (fun rows' h => List.mem_singleton.mp h ▸ hwritten)
  have hplotted : ∀ r, r ∈ plottedRows [rows] none ↔ r = ⟨0x100, 2, 3, 1⟩ := by
    intro r
    rw [plottedRows, List.flatten_singleton, List.mem_filter, hrow]
    exact and_iff_left rfl
  refine ⟨e, rows, harr, hdelta.trans (by decide), fun slack => ?_, hwritten,
    (hplotted _).mpr rfl, hplot.mpr fun r hr => ?_⟩
  · refine (hevents 0 _ _ e slack hthread harr List.mem_cons_self hused).mpr ?_
    rw [hdelta]
    decide
  · rw [(hplotted r).mp hr]
    decide

/-- A distance of `2 ^ 62` is filed under the saturated bucket; the resolver ends its interval at
`2 ^ 63 - 1`, the text files at `2 ^ 64 - 1`. -/
theorem postproc_buckets_saturated : ∃ e : DwarfEvent,
    ((rdWpctlOpen 1).run (reuseRun 0x4000000000000006)).threads[0]? =
      some (reuseThread 0x4000000000000006) ∧
    (reuseThread 0x4000000000000006).dwarfEvents = some [e] ∧ e.used = true ∧
    e.delta.toNat = 2 ^ 62 ∧ ∀ slack, ¬ BoundsAgree e (e.offline slack) := by
  obtain ⟨e, harr, hused, hdelta⟩ := exists_event_reuseThread 0x4000000000000006
  have hnat : e.delta.toNat = 2 ^ 62 := by
    rw [hdelta]
    rfl
  refine ⟨e, reuseRun_threads _, harr, hused, hnat, ?_⟩
  intro slack
  have hbucket := bucket_of_recorded 1 (reuseRun 0x4000000000000006) (reuseRun_threads _) harr
    List.mem_cons_self hused
  rw [boundsAgree_iff hbucket, hnat]
  exact lt_irrefl _

end RdSpeTool
