import Mathlib.Data.Prod.Lex
import Mathlib.Order.Preorder.Finite
import RdSpeTool.Hotspots
import RdSpeTool.StrictSort

/-!
# Choosing the hotspots of a thread

`collect_hotspots_for_thread` sorts the entries of a thread into the Pareto front of sample count
and average latency, the other entries above the thresholds, and the rest. The average is the exact
quotient here. Entries come in the order of a hash map, which the result does not depend on.
-/

namespace RdSpeTool

open StrictSort

structure HotspotSummary where
  tid : ℤ
  moduleId : U32
  pcOffset : U64
  sampleCount : U64
  paretoFront : U64
  candidateScore : U64
  candidateMetric : Text
  avgMemLatency : ℚ
  latTotalSum : U64
  latIssueSum : U64
  latXlatSum : U64
  latExecSum : U64
  l1dRefillCount : U64
  llcMissCount : U64
  tlbWalkCount : U64
  remoteAccessCount : U64
  path : Text
  deriving DecidableEq

/-- `RD_HOTSPOT_TOP_K`, `RD_HOTPC_MIN_SAMPLES` and `RD_HOTPC_MIN_LATENCY_SAMPLES`. -/
structure SelectionCfg where
  topK : ℕ
  minSamples : ℕ
  minLatencySamples : ℕ

/-! ## Scores -/

section Scores

variable (st : HotspotStats)

def hotspotLatencyCount : U64 := if st.latExecCount ≠ 0 then st.latExecCount else st.latTotalCount

def hotspotCandidateScore : U64 := if st.latExecCount ≠ 0 then st.latExecSum else st.latTotalSum

def hotspotCandidateMetric : Text :=
  if st.latExecCount ≠ 0 then "lat_exec_sum".toList else "lat_total_sum".toList

def hotspotAvgMemLatency : ℚ :=
  if st.latExecCount ≠ 0 then st.latExecSum.toNat / st.latExecCount.toNat
  else if st.latTotalCount ≠ 0 then st.latTotalSum.toNat / st.latTotalCount.toNat
  else 0

end Scores

def hotspotDominates (a b : HotspotSummary) : Bool :=
  a.sampleCount ≥ b.sampleCount ∧ a.avgMemLatency ≥ b.avgMemLatency ∧
    (a.sampleCount > b.sampleCount ∨ a.avgMemLatency > b.avgMemLatency)

def hotspotScoreBefore (a b : HotspotSummary) : Bool :=
  if a.candidateScore ≠ b.candidateScore then a.candidateScore > b.candidateScore
  else if a.sampleCount ≠ b.sampleCount then a.sampleCount > b.sampleCount
  else if a.moduleId ≠ b.moduleId then a.moduleId < b.moduleId
  else a.pcOffset < b.pcOffset

/-! ## Collecting -/

abbrev HotspotEntry := (_ : HotspotKey) × HotspotStats

def summarize (maps : List ModuleMapEntry) (tid : ℤ) (e : HotspotEntry) : HotspotSummary where
  tid := tid
  moduleId := e.1.moduleId
  pcOffset := e.1.pcOffset
  sampleCount := e.2.sampleCount
  paretoFront := 0
  candidateScore := hotspotCandidateScore e.2
  candidateMetric := hotspotCandidateMetric e.2
  avgMemLatency := hotspotAvgMemLatency e.2
  latTotalSum := e.2.latTotalSum
  latIssueSum := e.2.latIssueSum
  latXlatSum := e.2.latXlatSum
  latExecSum := e.2.latExecSum
  l1dRefillCount := e.2.l1dRefillCount
  llcMissCount := e.2.llcMissCount
  tlbWalkCount := e.2.tlbWalkCount
  remoteAccessCount := e.2.remoteAccessCount
  path :=
    match maps[e.1.moduleId.toNat]? with
    | some m => m.path
    | none => "[unknown_module]".toList

namespace HotspotSummary

def key (s : HotspotSummary) : HotspotKey := ⟨s.moduleId, s.pcOffset⟩

def mark (v : U64) (s : HotspotSummary) : HotspotSummary := { s with paretoFront := v }

end HotspotSummary

/-- The threshold test; the latency count is looked up again. -/
def passesThresholds (cfg : SelectionCfg) (table : HotspotTable) (s : HotspotSummary) : Bool :=
  let latencyCount := match table.lookup s.key with
    | some st => hotspotLatencyCount st
    | none => 0
  cfg.minSamples ≤ s.sampleCount.toNat ∧ cfg.minLatencySamples ≤ latencyCount.toNat

def dominatedAt (filtered : List HotspotSummary) (p : HotspotSummary × ℕ) : Bool :=
  filtered.zipIdx.any fun o => o.2 ≠ p.2 ∧ hotspotDominates o.1 p.1

def fillUp (topK : ℕ) (acc : List HotspotSummary) : List HotspotSummary → List HotspotSummary
  | [] => acc
  | s :: l => if acc.length ≥ topK then acc else fillUp topK (acc ++ [s]) l

def collectHotspotsForThread (cfg : SelectionCfg) (maps : List ModuleMapEntry) (tid : ℤ)
    (table : HotspotTable) : List HotspotSummary :=
  let all := table.entries.map (summarize maps tid)
  let filtered := all.filter (passesThresholds cfg table)
  let fallback := all.filter fun s => !passesThresholds cfg table s
  let front := (filtered.zipIdx.filter fun p => !dominatedAt filtered p).map fun p => p.1.mark 1
  let nonFront := (filtered.zipIdx.filter (dominatedAt filtered)).map fun p => p.1.mark 0
  fillUp cfg.topK
    (fillUp cfg.topK (fillUp cfg.topK [] (sort hotspotScoreBefore front))
      (sort hotspotScoreBefore nonFront))
    ((sort hotspotScoreBefore fallback).map (·.mark 0))

/-! ## Comparators as orders -/

def scoreKey (s : HotspotSummary) : ℕᵒᵈ ×ₗ ℕᵒᵈ ×ₗ ℕ ×ₗ ℕ :=
  toLex (OrderDual.toDual s.candidateScore.toNat, toLex (OrderDual.toDual s.sampleCount.toNat,
    toLex (s.moduleId.toNat, s.pcOffset.toNat)))

theorem hotspotScoreBefore_byKey : ByKey hotspotScoreBefore scoreKey := by
  intro a b
  unfold hotspotScoreBefore scoreKey
  simp only [Prod.Lex.toLex_lt_toLex, OrderDual.toDual_lt_toDual, EmbeddingLike.apply_eq_iff_eq,
    ne_eq, ← BitVec.toNat_inj, gt_iff_lt, BitVec.lt_def]
  split_ifs with h1 h2 h3
  all_goals simp only [decide_eq_true_eq]
  all_goals omega

theorem scoreKey_inj {a b : HotspotSummary} (h : scoreKey a = scoreKey b) : a.key = b.key := by
  unfold scoreKey at h
  simp only [EmbeddingLike.apply_eq_iff_eq, Prod.mk.injEq] at h
  obtain ⟨-, -, hm, hp⟩ := h
  unfold HotspotSummary.key
  rw [BitVec.eq_of_toNat_eq hm, BitVec.eq_of_toNat_eq hp]

def worth (s : HotspotSummary) : ℕ × ℚ := (s.sampleCount.toNat, s.avgMemLatency)

theorem hotspotDominates_iff (a b : HotspotSummary) :
    hotspotDominates a b = true ↔ worth b < worth a := by
  unfold hotspotDominates worth
  simp only [decide_eq_true_eq, ge_iff_le, gt_iff_lt, BitVec.le_def, BitVec.lt_def, Prod.mk_lt_mk]
  constructor
  · rintro ⟨hs, hl, hlt | hlt⟩
    · exact .inl ⟨hlt, hl⟩
    · exact .inr ⟨hs, hlt⟩
  · rintro (⟨hs, hl⟩ | ⟨hs, hl⟩)
    · exact ⟨hs.le, hl, .inl hs⟩
    · exact ⟨hs, hl.le, .inr hl⟩

/-- Above every member of a list stands one that nothing in the list exceeds. -/
theorem exists_maximal_above {α β : Type*} [PartialOrder β] {l : List α} (value : α → β) {a : α}
    (ha : a ∈ l) : ∃ f ∈ l, value a ≤ value f ∧ ∀ b ∈ l, ¬ value f < value b := by
  have hfin : (value '' {x | x ∈ l}).Finite := (List.finite_toSet l).image value
  obtain ⟨v, hav, hmax⟩ := hfin.exists_le_maximal (Set.mem_image_of_mem value ha)
  obtain ⟨f, hf, rfl⟩ := hmax.prop
  refine ⟨f, hf, hav, fun b hb hlt => ?_⟩
  exact hlt.not_ge (hmax.le_of_ge (Set.mem_image_of_mem value hb) hlt.le)

/-! ## The three parts -/

theorem filter_zipIdx {α β : Type*} (l : List α) (q : α → Bool) (f : α → β) :
    (l.zipIdx.filter fun p => q p.1).map (fun p => f p.1) = (l.filter q).map f := by
  have hfst : l.zipIdx.map Prod.fst = l := List.zipIdx_map_fst 0 l
  calc (l.zipIdx.filter fun p => q p.1).map (fun p => f p.1)
      = (((l.zipIdx.filter (q ∘ Prod.fst)).map Prod.fst).map f) := by
        rw [List.map_map]
        rfl
    _ = ((l.zipIdx.map Prod.fst).filter q).map f := by rw [List.filter_map]
    _ = (l.filter q).map f := by rw [hfst]

/-- No entry dominates itself, so the loop may as well look at all of them. -/
theorem dominatedAt_eq {l : List HotspotSummary} {p : HotspotSummary × ℕ} (hp : p ∈ l.zipIdx) :
    dominatedAt l p = l.any (hotspotDominates · p.1) := by
  have hself : ∀ a, hotspotDominates a a = false := by
    intro a
    rw [← Bool.not_eq_true, hotspotDominates_iff]
    exact lt_irrefl _
  rw [Bool.eq_iff_iff]
  unfold dominatedAt
  simp only [List.any_eq_true, decide_eq_true_eq]
  constructor
  · rintro ⟨o, ho, -, hdom⟩
    exact ⟨o.1, List.fst_mem_of_mem_zipIdx ho, hdom⟩
  · rintro ⟨o, ho, hdom⟩
    obtain ⟨j, hj⟩ := List.mem_iff_getElem?.mp ho
    refine ⟨(o, j), List.mk_mem_zipIdx_iff_getElem?.mpr hj, fun he => ?_, hdom⟩
    have hi : l[p.2]? = some p.1 := List.mem_zipIdx_iff_getElem?.mp hp
    dsimp only at he
    rw [← he, hj] at hi
    rw [← Option.some.inj hi, hself] at hdom
    cases hdom

theorem fillUp_eq (topK : ℕ) (acc l : List HotspotSummary) :
    fillUp topK acc l = acc ++ l.take (topK - acc.length) := by
  induction l generalizing acc with
  | nil => simp [fillUp]
  | cons s l ih =>
      rw [fillUp]
      by_cases hfull : acc.length ≥ topK
      · rw [if_pos hfull, Nat.sub_eq_zero_of_le hfull, List.take_zero, List.append_nil]
      · have hroom : topK - acc.length = topK - (acc ++ [s]).length + 1 := by
          rw [List.length_append, List.length_singleton]
          omega
        rw [if_neg hfull, ih, hroom, List.take_succ_cons, List.append_assoc, List.singleton_append]

theorem fillUp_take (topK : ℕ) (x l : List HotspotSummary) :
    fillUp topK (x.take topK) l = (x ++ l).take topK := by
  rw [fillUp_eq, List.take_append, List.length_take]
  congr 2
  omega

def SelectionCfg.passes (cfg : SelectionCfg) (st : HotspotStats) : Bool :=
  cfg.minSamples ≤ st.sampleCount.toNat ∧ cfg.minLatencySamples ≤ (hotspotLatencyCount st).toNat

section Parts

variable (cfg : SelectionCfg) (maps : List ModuleMapEntry) (tid : ℤ) (table : HotspotTable)

def passing (above : Bool) : List HotspotSummary :=
  (table.entries.filter fun e => cfg.passes e.2 = above).map (summarize maps tid)

/-- The entries above the thresholds that no such entry dominates. -/
def paretoFront : List HotspotSummary :=
  let l := passing cfg maps tid table true
  (l.filter fun s => !l.any (hotspotDominates · s)).map (·.mark 1)

def dominatedRest : List HotspotSummary :=
  let l := passing cfg maps tid table true
  (l.filter fun s => l.any (hotspotDominates · s)).map (·.mark 0)

theorem passesThresholds_summarize {e : HotspotEntry} (he : e ∈ table.entries) :
    passesThresholds cfg table (summarize maps tid e) = cfg.passes e.2 := by
  have hlook : table.lookup (summarize maps tid e).key = some e.2 := AList.mem_lookup_iff.mpr he
  unfold passesThresholds SelectionCfg.passes
  rw [hlook]
  rfl

theorem filter_passes (above : Bool) :
    ((table.entries.map (summarize maps tid)).filter fun s =>
      passesThresholds cfg table s = above) = passing cfg maps tid table above := by
  rw [List.filter_map]
  unfold passing
  congr 1
  apply List.filter_congr
  intro e he
  rw [Function.comp_apply, passesThresholds_summarize cfg maps tid table he]

theorem mark_zero_of_passing {s : HotspotSummary} {above : Bool}
    (hs : s ∈ passing cfg maps tid table above) : s.mark 0 = s := by
  obtain ⟨e, -, rfl⟩ := List.mem_map.mp hs
  rfl

theorem collectHotspotsForThread_eq :
    collectHotspotsForThread cfg maps tid table =
      (sort hotspotScoreBefore (paretoFront cfg maps tid table) ++
        sort hotspotScoreBefore (dominatedRest cfg maps tid table) ++
        sort hotspotScoreBefore (passing cfg maps tid table false)).take cfg.topK := by
  have hpass : (table.entries.map (summarize maps tid)).filter (passesThresholds cfg table) =
      passing cfg maps tid table true := by
    rw [← filter_passes]
    simp
  have hfail : ((table.entries.map (summarize maps tid)).filter fun s =>
      !passesThresholds cfg table s) = passing cfg maps tid table false := by
    rw [← filter_passes]
    simp
  have hmark : (sort hotspotScoreBefore (passing cfg maps tid table false)).map (·.mark 0) =
      sort hotspotScoreBefore (passing cfg maps tid table false) := by
    calc _ = (sort hotspotScoreBefore (passing cfg maps tid table false)).map id := by
          apply List.map_congr_left
          intro s hs
          exact mark_zero_of_passing cfg maps tid table (mem_sort.mp hs)
      _ = _ := List.map_id _
  have hfront : ((passing cfg maps tid table true).zipIdx.filter fun p =>
      !dominatedAt (passing cfg maps tid table true) p).map (fun p => p.1.mark 1) =
        paretoFront cfg maps tid table := by
    rw [List.filter_congr fun p hp => congrArg (!·) (dominatedAt_eq hp)]
    exact filter_zipIdx (passing cfg maps tid table true)
      (fun s => !(passing cfg maps tid table true).any (hotspotDominates · s)) (·.mark 1)
  have hrest : ((passing cfg maps tid table true).zipIdx.filter
      (dominatedAt (passing cfg maps tid table true))).map (fun p => p.1.mark 0) =
        dominatedRest cfg maps tid table := by
    rw [List.filter_congr fun p hp => dominatedAt_eq hp]
    exact filter_zipIdx (passing cfg maps tid table true)
      (fun s => (passing cfg maps tid table true).any (hotspotDominates · s)) (·.mark 0)
  unfold collectHotspotsForThread
  dsimp only
  rw [hpass, hfail, hfront, hrest, hmark]
  have hnil : fillUp cfg.topK [] (sort hotspotScoreBefore (paretoFront cfg maps tid table)) =
      (sort hotspotScoreBefore (paretoFront cfg maps tid table)).take cfg.topK := by
    rw [fillUp_eq]
    rfl
  rw [hnil, fillUp_take, fillUp_take]

/-! ## Keys -/

theorem passing_keys (above : Bool) :
    (passing cfg maps tid table above).map HotspotSummary.key =
      (table.entries.filter fun e => cfg.passes e.2 = above).map Sigma.fst := by
  unfold passing
  rw [List.map_map]
  rfl

theorem passing_keys_nodup (above : Bool) :
    ((passing cfg maps tid table above).map HotspotSummary.key).Nodup := by
  rw [passing_keys]
  exact table.keys_nodup.sublist (List.filter_sublist.map _)

/-- Different keys are told apart by the order. -/
theorem nodup_scoreKey {l : List HotspotSummary} (h : (l.map HotspotSummary.key).Nodup) :
    (l.map scoreKey).Nodup := by
  unfold List.Nodup at *
  rw [List.pairwise_map] at *
  exact h.imp fun hne heq => hne (scoreKey_inj heq)

theorem map_mark_keys (v : U64) (l : List HotspotSummary) :
    (l.map (·.mark v)).map HotspotSummary.key = l.map HotspotSummary.key := by
  rw [List.map_map]
  rfl

end Parts

section Order

variable {cfg : SelectionCfg} {maps : List ModuleMapEntry} {tid : ℤ} {table table' : HotspotTable}

theorem paretoFront_keys_nodup :
    ((paretoFront cfg maps tid table).map HotspotSummary.key).Nodup := by
  unfold paretoFront
  dsimp only
  rw [map_mark_keys]
  exact (passing_keys_nodup cfg maps tid table true).sublist (List.filter_sublist.map _)

theorem dominatedRest_keys_nodup :
    ((dominatedRest cfg maps tid table).map HotspotSummary.key).Nodup := by
  unfold dominatedRest
  dsimp only
  rw [map_mark_keys]
  exact (passing_keys_nodup cfg maps tid table true).sublist (List.filter_sublist.map _)

theorem passing_perm (hp : table.entries.Perm table'.entries) (above : Bool) :
    (passing cfg maps tid table above).Perm (passing cfg maps tid table' above) :=
  (hp.filter _).map _

/-- The iteration order of the hash map does not show. -/
theorem collectHotspotsForThread_perm (hp : table.entries.Perm table'.entries) :
    collectHotspotsForThread cfg maps tid table = collectHotspotsForThread cfg maps tid table' := by
  have hpass : (passing cfg maps tid table true).Perm (passing cfg maps tid table' true) :=
    passing_perm hp true
  have hany : ∀ s, (passing cfg maps tid table true).any (hotspotDominates · s) =
      (passing cfg maps tid table' true).any (hotspotDominates · s) := by
    intro s
    rw [Bool.eq_iff_iff, List.any_eq_true, List.any_eq_true]
    exact exists_congr fun o => and_congr_left fun _ => hpass.mem_iff
  have hfront : (paretoFront cfg maps tid table).Perm (paretoFront cfg maps tid table') := by
    unfold paretoFront
    simp only [hany]
    exact (hpass.filter _).map _
  have hrest : (dominatedRest cfg maps tid table).Perm (dominatedRest cfg maps tid table') := by
    unfold dominatedRest
    simp only [hany]
    exact (hpass.filter _).map _
  rw [collectHotspotsForThread_eq, collectHotspotsForThread_eq,
    sort_eq_of_perm hotspotScoreBefore_byKey (nodup_scoreKey paretoFront_keys_nodup) hfront,
    sort_eq_of_perm hotspotScoreBefore_byKey (nodup_scoreKey dominatedRest_keys_nodup) hrest,
    sort_eq_of_perm hotspotScoreBefore_byKey
      (nodup_scoreKey (passing_keys_nodup cfg maps tid table false)) (passing_perm hp false)]

/-- The keys of the three parts are those of the table. -/
theorem parts_keys_perm :
    ((sort hotspotScoreBefore (paretoFront cfg maps tid table) ++
      sort hotspotScoreBefore (dominatedRest cfg maps tid table) ++
      sort hotspotScoreBefore (passing cfg maps tid table false)).map HotspotSummary.key).Perm
        table.keys := by
  have hsplit : (paretoFront cfg maps tid table ++ dominatedRest cfg maps tid table).map
      HotspotSummary.key |>.Perm ((passing cfg maps tid table true).map HotspotSummary.key) := by
    unfold paretoFront dominatedRest
    dsimp only
    rw [List.map_append, map_mark_keys, map_mark_keys, ← List.map_append]
    apply List.Perm.map
    refine List.perm_append_comm.trans ?_
    exact List.filter_append_perm
      (fun s => (passing cfg maps tid table true).any (hotspotDominates · s)) _
  have hall : ((passing cfg maps tid table true).map HotspotSummary.key ++
      (passing cfg maps tid table false).map HotspotSummary.key).Perm table.keys := by
    rw [passing_keys, passing_keys, ← List.map_append]
    have hfalse : (table.entries.filter fun e => cfg.passes e.2 = false) =
        table.entries.filter fun e => !cfg.passes e.2 = true := by
      apply List.filter_congr
      intro e _
      cases cfg.passes e.2 <;> rfl
    rw [hfalse]
    exact (List.filter_append_perm _ table.entries).map _
  rw [List.map_append]
  refine (List.Perm.append ?_ ((sort_perm _ _).map _)).trans hall
  exact (((sort_perm _ _).append (sort_perm _ _)).map _).trans hsplit

end Order

/-! ## The selection -/

namespace HotspotStats

/-- Execution latencies rate a hotspot that has any, total latencies any other. -/
def ratedCount (st : HotspotStats) : ℕ :=
  if 0 < st.latExecCount.toNat then st.latExecCount.toNat else st.latTotalCount.toNat

def ratedSum (st : HotspotStats) : ℕ :=
  if 0 < st.latExecCount.toNat then st.latExecSum.toNat else st.latTotalSum.toNat

def ratedAvg (st : HotspotStats) : ℚ := st.ratedSum / st.ratedCount

/-- As many samples and as slow on average, and more of one. -/
structure Dominates (a b : HotspotStats) : Prop where
  samples : b.sampleCount.toNat ≤ a.sampleCount.toNat
  latency : b.ratedAvg ≤ a.ratedAvg
  strict : b.sampleCount.toNat < a.sampleCount.toNat ∨ b.ratedAvg < a.ratedAvg

end HotspotStats

/-- Enough samples, and enough of them with a latency. -/
def SelectionCfg.Admits (cfg : SelectionCfg) (st : HotspotStats) : Prop :=
  cfg.minSamples ≤ st.sampleCount.toNat ∧ cfg.minLatencySamples ≤ st.ratedCount

/-- What a selection `out` from the entries of a table has to be. -/
structure IsSelection (cfg : SelectionCfg) (summary : HotspotEntry → HotspotSummary)
    (entries : List HotspotEntry) (front rest fallback out : List HotspotSummary) : Prop where
  out_eq : out = (front ++ rest ++ fallback).take cfg.topK
  mem_front : ∀ s, s ∈ front ↔ ∃ e ∈ entries, s = (summary e).mark 1 ∧ cfg.Admits e.2 ∧
    ∀ d ∈ entries, cfg.Admits d.2 → ¬ d.2.Dominates e.2
  mem_rest : ∀ s, s ∈ rest ↔ ∃ e ∈ entries, s = (summary e).mark 0 ∧ cfg.Admits e.2 ∧
    ∃ d ∈ entries, cfg.Admits d.2 ∧ d.2.Dominates e.2
  mem_fallback : ∀ s, s ∈ fallback ↔ ∃ e ∈ entries, s = (summary e).mark 0 ∧ ¬ cfg.Admits e.2
  front_sorted : front.Pairwise fun a b => scoreKey a < scoreKey b
  rest_sorted : rest.Pairwise fun a b => scoreKey a < scoreKey b
  fallback_sorted : fallback.Pairwise fun a b => scoreKey a < scoreKey b
  front_marked : ∀ s ∈ front, s.paretoFront = 1
  others_unmarked : ∀ s ∈ rest ++ fallback, s.paretoFront = 0
  rest_dominated : ∀ e ∈ entries, (summary e).mark 0 ∈ rest →
    ∃ d ∈ entries, (summary d).mark 1 ∈ front ∧ d.2.Dominates e.2

section Selection

variable (cfg : SelectionCfg) (maps : List ModuleMapEntry) (tid : ℤ) (table : HotspotTable)

theorem mem_paretoFront {s : HotspotSummary} : s ∈ paretoFront cfg maps tid table ↔
    ∃ p ∈ passing cfg maps tid table true, s = p.mark 1 ∧
      ∀ q ∈ passing cfg maps tid table true, hotspotDominates q p = false := by
  unfold paretoFront
  simp only [List.mem_map, List.mem_filter, Bool.not_eq_true', List.any_eq_false,
    Bool.not_eq_true]
  constructor
  · rintro ⟨p, ⟨hp, hq⟩, rfl⟩
    exact ⟨p, hp, rfl, hq⟩
  · rintro ⟨p, hp, rfl, hq⟩
    exact ⟨p, ⟨hp, hq⟩, rfl⟩

theorem mem_dominatedRest {s : HotspotSummary} : s ∈ dominatedRest cfg maps tid table ↔
    ∃ p ∈ passing cfg maps tid table true, s = p.mark 0 ∧
      ∃ q ∈ passing cfg maps tid table true, hotspotDominates q p = true := by
  unfold dominatedRest
  simp only [List.mem_map, List.mem_filter, List.any_eq_true]
  constructor
  · rintro ⟨p, ⟨hp, hq⟩, rfl⟩
    exact ⟨p, hp, rfl, hq⟩
  · rintro ⟨p, hp, rfl, hq⟩
    exact ⟨p, ⟨hp, hq⟩, rfl⟩

/-- A selected hotspot is the summary of an entry. -/
theorem exists_entry_of_mem_collect {s : HotspotSummary}
    (h : s ∈ collectHotspotsForThread cfg maps tid table) :
    ∃ e ∈ table.entries, ∃ v, s = (summarize maps tid e).mark v := by
  have hpassing : ∀ {above p}, p ∈ passing cfg maps tid table above → ∃ e ∈ table.entries,
      p = summarize maps tid e := by
    intro above p hp
    obtain ⟨e, he, rfl⟩ := List.mem_map.mp hp
    exact ⟨e, List.mem_of_mem_filter he, rfl⟩
  rw [collectHotspotsForThread_eq] at h
  have hmem := List.mem_of_mem_take h
  simp only [List.mem_append, mem_sort] at hmem
  obtain (hs | hs) | hs := hmem
  · obtain ⟨p, hp, rfl, -⟩ := (mem_paretoFront cfg maps tid table).mp hs
    obtain ⟨e, he, rfl⟩ := hpassing hp
    exact ⟨e, he, 1, rfl⟩
  · obtain ⟨p, hp, rfl, -⟩ := (mem_dominatedRest cfg maps tid table).mp hs
    obtain ⟨e, he, rfl⟩ := hpassing hp
    exact ⟨e, he, 0, rfl⟩
  · obtain ⟨e, he, rfl⟩ := hpassing hs
    exact ⟨e, he, 0, rfl⟩

/-- A dominated entry is dominated from the front: climb to a maximal entry above the one that
dominates it. -/
theorem exists_front_dominating {p q : HotspotSummary} (hq : q ∈ passing cfg maps tid table true)
    (hdom : hotspotDominates q p = true) :
    ∃ f ∈ paretoFront cfg maps tid table, hotspotDominates f p = true := by
  obtain ⟨f, hf, hqf, hmax⟩ := exists_maximal_above worth hq
  refine ⟨f.mark 1, (mem_paretoFront cfg maps tid table).mpr ⟨f, hf, rfl, fun r hr => ?_⟩, ?_⟩
  · rw [← Bool.not_eq_true, hotspotDominates_iff]
    exact hmax r hr
  · rw [hotspotDominates_iff] at hdom ⊢
    exact hdom.trans_le hqf

theorem hotspotLatencyCount_toNat (st : HotspotStats) :
    (hotspotLatencyCount st).toNat = st.ratedCount := by
  unfold hotspotLatencyCount HotspotStats.ratedCount
  by_cases h : st.latExecCount = 0
  · rw [if_neg (not_not.mpr h), if_neg (by simp [h])]
  · rw [if_pos h, if_pos (Nat.pos_of_ne_zero fun h0 => h (BitVec.eq_of_toNat_eq h0))]

theorem hotspotCandidateScore_toNat (st : HotspotStats) :
    (hotspotCandidateScore st).toNat = st.ratedSum := by
  unfold hotspotCandidateScore HotspotStats.ratedSum
  by_cases h : st.latExecCount = 0
  · rw [if_neg (not_not.mpr h), if_neg (by simp [h])]
  · rw [if_pos h, if_pos (Nat.pos_of_ne_zero fun h0 => h (BitVec.eq_of_toNat_eq h0))]

/-- A hotspot without any latency has average 0, as the quotient by 0. -/
theorem hotspotAvgMemLatency_eq (st : HotspotStats) : hotspotAvgMemLatency st = st.ratedAvg := by
  unfold hotspotAvgMemLatency HotspotStats.ratedAvg HotspotStats.ratedSum HotspotStats.ratedCount
  by_cases h : st.latExecCount = 0
  · have hzero : ¬ 0 < st.latExecCount.toNat := by simp [h]
    rw [if_neg (not_not.mpr h), if_neg hzero, if_neg hzero]
    by_cases htotal : st.latTotalCount = 0
    · simp [htotal]
    · rw [if_pos htotal]
  · have hpos : 0 < st.latExecCount.toNat :=
      Nat.pos_of_ne_zero fun h0 => h (BitVec.eq_of_toNat_eq h0)
    rw [if_pos h, if_pos hpos, if_pos hpos]

theorem passes_iff (st : HotspotStats) : cfg.passes st = true ↔ cfg.Admits st := by
  unfold SelectionCfg.passes SelectionCfg.Admits
  rw [hotspotLatencyCount_toNat, decide_eq_true_eq]

theorem dominates_summarize (a b : HotspotEntry) :
    hotspotDominates (summarize maps tid a) (summarize maps tid b) = true ↔ a.2.Dominates b.2 := by
  unfold hotspotDominates summarize
  simp only [hotspotAvgMemLatency_eq, decide_eq_true_eq, ge_iff_le, gt_iff_lt, BitVec.le_def,
    BitVec.lt_def]
  constructor
  · rintro ⟨hs, hl, hlt⟩
    exact ⟨hs, hl, hlt⟩
  · rintro ⟨hs, hl, hlt⟩
    exact ⟨hs, hl, hlt⟩

theorem mem_passing {s : HotspotSummary} : s ∈ passing cfg maps tid table true ↔
    ∃ e ∈ table.entries, s = summarize maps tid e ∧ cfg.Admits e.2 := by
  unfold passing
  simp only [List.mem_map, List.mem_filter, decide_eq_true_eq, passes_iff]
  constructor
  · rintro ⟨e, ⟨he, ha⟩, rfl⟩
    exact ⟨e, he, rfl, ha⟩
  · rintro ⟨e, he, rfl, ha⟩
    exact ⟨e, ⟨he, ha⟩, rfl⟩

theorem mem_failing {s : HotspotSummary} : s ∈ passing cfg maps tid table false ↔
    ∃ e ∈ table.entries, s = (summarize maps tid e).mark 0 ∧ ¬ cfg.Admits e.2 := by
  have hfail : ∀ st, cfg.passes st = false ↔ ¬ cfg.Admits st :=
    fun st => by rw [← passes_iff, Bool.not_eq_true]
  unfold passing
  simp only [List.mem_map, List.mem_filter, decide_eq_true_eq, hfail]
  constructor
  · rintro ⟨e, ⟨he, ha⟩, rfl⟩
    exact ⟨e, he, rfl, ha⟩
  · rintro ⟨e, he, rfl, ha⟩
    exact ⟨e, ⟨he, ha⟩, rfl⟩

/-- The front in terms of the table. -/
theorem mem_front_iff {s : HotspotSummary} : s ∈ paretoFront cfg maps tid table ↔
    ∃ e ∈ table.entries, s = (summarize maps tid e).mark 1 ∧ cfg.Admits e.2 ∧
      ∀ d ∈ table.entries, cfg.Admits d.2 → ¬ d.2.Dominates e.2 := by
  rw [mem_paretoFront]
  constructor
  · rintro ⟨p, hp, rfl, hmax⟩
    obtain ⟨e, he, rfl, ha⟩ := (mem_passing cfg maps tid table).mp hp
    refine ⟨e, he, rfl, ha, fun d hd had hdom => ?_⟩
    have hfalse := hmax _ ((mem_passing cfg maps tid table).mpr ⟨d, hd, rfl, had⟩)
    rw [(dominates_summarize maps tid d e).mpr hdom] at hfalse
    cases hfalse
  · rintro ⟨e, he, rfl, ha, hmax⟩
    refine ⟨_, (mem_passing cfg maps tid table).mpr ⟨e, he, rfl, ha⟩, rfl, fun q hq => ?_⟩
    obtain ⟨d, hd, rfl, had⟩ := (mem_passing cfg maps tid table).mp hq
    rw [← Bool.not_eq_true, dominates_summarize]
    exact hmax d hd had

theorem mem_rest_iff {s : HotspotSummary} : s ∈ dominatedRest cfg maps tid table ↔
    ∃ e ∈ table.entries, s = (summarize maps tid e).mark 0 ∧ cfg.Admits e.2 ∧
      ∃ d ∈ table.entries, cfg.Admits d.2 ∧ d.2.Dominates e.2 := by
  rw [mem_dominatedRest]
  constructor
  · rintro ⟨p, hp, rfl, q, hq, hdom⟩
    obtain ⟨e, he, rfl, ha⟩ := (mem_passing cfg maps tid table).mp hp
    obtain ⟨d, hd, rfl, had⟩ := (mem_passing cfg maps tid table).mp hq
    exact ⟨e, he, rfl, ha, d, hd, had, (dominates_summarize maps tid d e).mp hdom⟩
  · rintro ⟨e, he, rfl, ha, d, hd, had, hdom⟩
    exact ⟨_, (mem_passing cfg maps tid table).mpr ⟨e, he, rfl, ha⟩, rfl, _,
      (mem_passing cfg maps tid table).mpr ⟨d, hd, rfl, had⟩,
      (dominates_summarize maps tid d e).mpr hdom⟩

/-- The hotspots of a thread are the first `topK` of front, other entries above the thresholds and
remaining entries, each rated by its exact average, in any order of the hash map. -/
theorem hotspot_selection :
    (∀ e, (summarize maps tid e).sampleCount = e.2.sampleCount ∧
      (summarize maps tid e).candidateScore.toNat = e.2.ratedSum ∧
      (summarize maps tid e).avgMemLatency = e.2.ratedSum / e.2.ratedCount) ∧
    (∃ front rest fallback, IsSelection cfg (summarize maps tid) table.entries front rest fallback
      (collectHotspotsForThread cfg maps tid table)) ∧
    (collectHotspotsForThread cfg maps tid table).length = min cfg.topK table.keys.length ∧
    ((collectHotspotsForThread cfg maps tid table).map HotspotSummary.key).Nodup ∧
    ∀ table' : HotspotTable, table.entries.Perm table'.entries →
      collectHotspotsForThread cfg maps tid table' = collectHotspotsForThread cfg maps tid table := by
  have hkeys := @parts_keys_perm cfg maps tid table
  have hsorted : ∀ {l : List HotspotSummary}, (l.map scoreKey).Nodup →
      (sort hotspotScoreBefore l).Pairwise fun a b => scoreKey a < scoreKey b := by
    intro l hl
    exact (sort_pairwise hotspotScoreBefore_byKey hl).imp
      fun hab => (hotspotScoreBefore_byKey _ _).mp hab
  refine ⟨fun e => ⟨rfl, hotspotCandidateScore_toNat e.2, hotspotAvgMemLatency_eq e.2⟩,
    ⟨sort hotspotScoreBefore (paretoFront cfg maps tid table),
      sort hotspotScoreBefore (dominatedRest cfg maps tid table),
      sort hotspotScoreBefore (passing cfg maps tid table false), ?_⟩, ?_, ?_, ?_⟩
  · constructor
    case out_eq => exact collectHotspotsForThread_eq cfg maps tid table
    case mem_front => exact fun s => mem_sort.trans (mem_front_iff cfg maps tid table)
    case mem_rest => exact fun s => mem_sort.trans (mem_rest_iff cfg maps tid table)
    case mem_fallback => exact fun s => mem_sort.trans (mem_failing cfg maps tid table)
    case front_sorted => exact hsorted (nodup_scoreKey paretoFront_keys_nodup)
    case rest_sorted => exact hsorted (nodup_scoreKey dominatedRest_keys_nodup)
    case fallback_sorted =>
      exact hsorted (nodup_scoreKey (passing_keys_nodup cfg maps tid table false))
    case front_marked =>
      intro s hs
      obtain ⟨p, -, rfl, -⟩ := (mem_paretoFront cfg maps tid table).mp (mem_sort.mp hs)
      rfl
    case others_unmarked =>
      intro s hs
      rcases List.mem_append.mp hs with hs | hs
      · obtain ⟨p, -, rfl, -⟩ := (mem_dominatedRest cfg maps tid table).mp (mem_sort.mp hs)
        rfl
      · rw [← mark_zero_of_passing cfg maps tid table (mem_sort.mp hs)]
        rfl
    case rest_dominated =>
      intro e he hrest
      obtain ⟨e', he', hmark, -, q, hq, hadm, hdom⟩ :=
        (mem_rest_iff cfg maps tid table).mp (mem_sort.mp hrest)
      -- the summaries of different entries have different keys
      have hfst : e = e' := by
        have hkey : e.1 = e'.1 := congrArg HotspotSummary.key hmark
        obtain ⟨k, st⟩ := e
        obtain ⟨k', st'⟩ := e'
        obtain rfl : k = k' := hkey
        have hlook := AList.mem_lookup_iff.mpr he
        rw [AList.mem_lookup_iff.mpr he'] at hlook
        rw [Option.some.inj hlook]
      subst hfst
      obtain ⟨f, hf, hfdom⟩ := exists_front_dominating cfg maps tid table
        ((mem_passing cfg maps tid table).mpr ⟨q, hq, rfl, hadm⟩)
        ((dominates_summarize maps tid q e).mpr hdom)
      obtain ⟨d, hd, rfl, -⟩ := (mem_front_iff cfg maps tid table).mp hf
      exact ⟨d, hd, mem_sort.mpr hf, (dominates_summarize maps tid d e).mp hfdom⟩
  · have hlen := hkeys.length_eq
    rw [List.length_map] at hlen
    rw [collectHotspotsForThread_eq, List.length_take, hlen]
  · rw [collectHotspotsForThread_eq]
    exact (hkeys.nodup_iff.mpr table.keys_nodup).sublist ((List.take_sublist _ _).map _)
  · exact fun table' hp => (collectHotspotsForThread_perm hp).symm

end Selection

/-! ## A table of four hotspots -/

def execStats (samples count sum : U64) : HotspotStats :=
  { HotspotStats.zero with sampleCount := samples, latExecCount := count, latExecSum := sum }

def totalStats (samples count sum : U64) : HotspotStats :=
  { HotspotStats.zero with sampleCount := samples, latTotalCount := count, latTotalSum := sum }

def fourHotspots : HotspotTable where
  entries := [⟨⟨0, 0x10⟩, execStats 10 5 500⟩, ⟨⟨0, 0x20⟩, totalStats 4 4 1200⟩,
    ⟨⟨0, 0x30⟩, execStats 4 2 100⟩, ⟨⟨0, 0x40⟩, execStats 1 1 9000⟩]
  nodupKeys := by
    unfold List.NodupKeys
    decide

def fourHotspotsReversed : HotspotTable where
  entries := fourHotspots.entries.reverse
  nodupKeys := (List.perm_nodupKeys (List.reverse_perm _)).mpr fourHotspots.nodupKeys

/-- Front, dominated and rare hotspots in this order, whichever way the table is walked. -/
theorem hotspot_selection_small :
    (collectHotspotsForThread ⟨3, 2, 1⟩ [] 7 fourHotspots).map
      (fun s => (s.pcOffset, s.paretoFront, s.avgMemLatency)) =
        [(0x20, 1, 300), (0x10, 1, 100), (0x30, 0, 50)] ∧
    (collectHotspotsForThread ⟨4, 2, 1⟩ [] 7 fourHotspots).map (·.pcOffset) =
      [0x20, 0x10, 0x30, 0x40] ∧
    collectHotspotsForThread ⟨4, 2, 1⟩ [] 7 fourHotspotsReversed =
      collectHotspotsForThread ⟨4, 2, 1⟩ [] 7 fourHotspots := by
  obtain ⟨-, -, -, -, horder⟩ := hotspot_selection ⟨4, 2, 1⟩ [] 7 fourHotspots
  refine ⟨by decide +kernel, by decide +kernel, horder fourHotspotsReversed ?_⟩
  exact (List.reverse_perm _).symm

end RdSpeTool
