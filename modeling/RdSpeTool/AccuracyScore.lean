import Mathlib.Data.List.AList
import RdSpeTool.Overlap

/-!
# The accuracy score of a histogram

`plot_rd_acc.py` compares the expected histogram of a benchmark with the observed one: it divides
both by their totals, and subtracts half of the differences from one. With exact division this is
the overlap of the two distributions.
-/

namespace RdSpeTool.PlotRdAcc

open Overlap

abbrev Bucket := ℤ × ℤ

abbrev Counts := AList fun _ : Bucket => ℤ

/-- `counts.get(bucket, 0)`. -/
def count (counts : Counts) (bucket : Bucket) : ℤ := (counts.lookup bucket).getD 0

def total (counts : Counts) : ℤ := (counts.entries.map Sigma.snd).sum

/-- `counts[bucket] = counts.get(bucket, 0) + int(count)`. -/
def addRow (counts : Counts) (row : Bucket × ℤ) : Counts :=
  counts.insert row.1 (count counts row.1 + row.2)

/-- The histogram of the rows that a parser accepts. -/
def collect (rows : List (Bucket × ℤ)) : Counts := rows.foldl addRow ∅

def normalized (counts : Counts) (buckets : List Bucket) : List ℚ :=
  if total counts ≤ 0 then buckets.map fun _ => 0
  else buckets.map fun bucket => (count counts bucket : ℚ) / total counts

def allBuckets (expected observed : Counts) : Finset Bucket :=
  expected.keys.toFinset ∪ observed.keys.toFinset

def l1 (expected observed : Counts) : ℚ :=
  ∑ bucket ∈ allBuckets expected observed,
    |(count expected bucket : ℚ) / total expected - (count observed bucket : ℚ) / total observed|

def similarityS (expected observed : Counts) : ℚ :=
  if total expected ≤ 0 ∨ total observed ≤ 0 then 0 else max 0 (1 - l1 expected observed / 2)

/-- A histogram that can be compared. -/
structure Proper (counts : Counts) : Prop where
  nonneg : ∀ bucket, 0 ≤ count counts bucket
  positive : 0 < total counts

/-- The part of a bucket in its histogram. -/
def share (counts : Counts) (bucket : Bucket) : ℚ := count counts bucket / total counts

def support (counts : Counts) : Set Bucket := {bucket | count counts bucket ≠ 0}

/-- One histogram has `c` times the counts of another. -/
def IsMultiple (c : ℚ) (counts multiple : Counts) : Prop :=
  ∀ bucket, (count multiple bucket : ℚ) = c * count counts bucket

/-- What the score promises of two histograms. -/
structure ProperSimilarity (expected observed : Counts) : Prop where
  overlap : ∀ buckets : List Bucket, buckets.Nodup → expected.keys ⊆ buckets →
    observed.keys ⊆ buckets → similarityS expected observed =
      (List.zipWith min (normalized expected buckets) (normalized observed buckets)).sum
  unclamped : 0 ≤ 1 - l1 expected observed / 2 ∧
    similarityS expected observed = 1 - l1 expected observed / 2
  unit : 0 ≤ similarityS expected observed ∧ similarityS expected observed ≤ 1
  symmetric : similarityS expected observed = similarityS observed expected
  multipleExpected : ∀ (c : ℚ) (multiple : Counts), 0 < c → IsMultiple c expected multiple →
    similarityS multiple observed = similarityS expected observed
  multipleObserved : ∀ (c : ℚ) (multiple : Counts), 0 < c → IsMultiple c observed multiple →
    similarityS expected multiple = similarityS expected observed
  eq_one_iff : similarityS expected observed = 1 ↔
    ∀ buckets, normalized expected buckets = normalized observed buckets
  eq_zero_iff : similarityS expected observed = 0 ↔ support expected ∩ support observed = ∅

/-! ## Counts and shares -/

variable {counts multiple expected observed : Counts} {bucket : Bucket}

theorem count_of_notMem (h : bucket ∉ counts.keys) : count counts bucket = 0 := by
  rw [count, AList.lookup_eq_none.mpr h]
  rfl

/-- A total is the sum over any buckets that contain those of the histogram. -/
theorem total_eq_sum {s : Finset Bucket} (h : ∀ bucket ∈ counts.keys, bucket ∈ s) :
    total counts = ∑ bucket ∈ s, count counts bucket := by
  have hvalues : counts.entries.map Sigma.snd = counts.keys.map (count counts) := by
    unfold AList.keys List.keys
    rw [List.map_map]
    apply List.map_congr_left
    rintro ⟨bucket, n⟩ hentry
    have hlookup : counts.lookup bucket = some n := AList.mem_lookup_iff.mpr hentry
    simp [count, hlookup]
  rw [total, hvalues, ← List.sum_toFinset _ counts.keys_nodup]
  refine Finset.sum_subset (fun b hb => h b (List.mem_toFinset.mp hb)) fun b _ hnot => ?_
  exact count_of_notMem fun hb => hnot (List.mem_toFinset.mpr hb)

theorem count_addRow (counts : Counts) (row : Bucket × ℤ) (bucket : Bucket) :
    count (addRow counts row) bucket =
      count counts bucket + if row.1 = bucket then row.2 else 0 := by
  by_cases h : row.1 = bucket
  · subst h
    rw [if_pos rfl, addRow, count, AList.lookup_insert]
    rfl
  · rw [if_neg h, add_zero, addRow, count, AList.lookup_insert_ne (Ne.symm h)]
    rfl

theorem total_addRow (counts : Counts) (row : Bucket × ℤ) :
    total (addRow counts row) = total counts + row.2 := by
  have hnew : ∀ b ∈ (addRow counts row).keys, b ∈ insert row.1 counts.keys.toFinset := by
    intro b hb
    rw [Finset.mem_insert, List.mem_toFinset]
    exact (AList.mem_insert counts).mp hb
  have hold : ∀ b ∈ counts.keys, b ∈ insert row.1 counts.keys.toFinset := fun b hb =>
    Finset.mem_insert_of_mem (List.mem_toFinset.mpr hb)
  rw [total_eq_sum hnew, total_eq_sum hold]
  simp only [count_addRow]
  rw [Finset.sum_add_distrib, Finset.sum_ite_eq, if_pos (Finset.mem_insert_self _ _)]

theorem foldl_addRow (rows : List (Bucket × ℤ)) (counts : Counts)
    (hrows : ∀ row ∈ rows, 0 ≤ row.2) (hnonneg : ∀ bucket, 0 ≤ count counts bucket) :
    (∀ bucket, 0 ≤ count (rows.foldl addRow counts) bucket) ∧
      total (rows.foldl addRow counts) = total counts + (rows.map Prod.snd).sum := by
  induction rows generalizing counts with
  | nil => simpa using hnonneg
  | cons row rows ih =>
      obtain ⟨hcounts, htotal⟩ := ih (addRow counts row)
        (fun r hr => hrows r (List.mem_cons_of_mem row hr)) (by
          intro b
          have hrow := hrows row List.mem_cons_self
          have hb := hnonneg b
          rw [count_addRow]
          split_ifs
          · omega
          · omega)
      refine ⟨hcounts, ?_⟩
      rw [List.foldl_cons, htotal, total_addRow, List.map_cons, List.sum_cons]
      omega

/-- The parsers build proper histograms from rows that do not count backwards. -/
theorem proper_collect {rows : List (Bucket × ℤ)} (hrows : ∀ row ∈ rows, 0 ≤ row.2)
    (hsome : ∃ row ∈ rows, 0 < row.2) : Proper (collect rows) := by
  obtain ⟨hnonneg, htotal⟩ := foldl_addRow rows ∅ hrows fun _ => le_rfl
  refine ⟨hnonneg, ?_⟩
  obtain ⟨row, hrow, hpos⟩ := hsome
  have hle : row.2 ≤ (rows.map Prod.snd).sum := by
    refine List.single_le_sum ?_ _ (List.mem_map_of_mem hrow)
    intro n hn
    obtain ⟨r, hr, rfl⟩ := List.mem_map.mp hn
    exact hrows r hr
  have hempty : total ∅ = 0 := rfl
  unfold collect
  omega

theorem normalized_eq (h : Proper counts) (buckets : List Bucket) :
    normalized counts buckets = buckets.map (share counts) :=
  if_neg (by have := h.positive; omega)

theorem share_nonneg (h : Proper counts) (bucket : Bucket) : 0 ≤ share counts bucket :=
  div_nonneg (Int.cast_nonneg (h.nonneg bucket)) (Int.cast_nonneg h.positive.le)

theorem share_of_notMem (h : bucket ∉ counts.keys) : share counts bucket = 0 := by
  rw [share, count_of_notMem h, Int.cast_zero, zero_div]

theorem share_eq_zero_iff (h : Proper counts) :
    share counts bucket = 0 ↔ count counts bucket = 0 := by
  have hne : (total counts : ℚ) ≠ 0 := Int.cast_ne_zero.mpr h.positive.ne'
  rw [share, div_eq_zero_iff, or_iff_left hne, Int.cast_eq_zero]

theorem sum_share (h : Proper counts) {s : Finset Bucket}
    (hs : ∀ bucket ∈ counts.keys, bucket ∈ s) : ∑ bucket ∈ s, share counts bucket = 1 := by
  have hne : (total counts : ℚ) ≠ 0 := Int.cast_ne_zero.mpr h.positive.ne'
  have hsum : (total counts : ℚ) = ∑ bucket ∈ s, (count counts bucket : ℚ) := by
    rw [total_eq_sum hs, Int.cast_sum]
  unfold share
  rw [← Finset.sum_div, ← hsum, div_self hne]

theorem IsMultiple.proper {c : ℚ} (hm : IsMultiple c counts multiple) (hc : 0 < c)
    (h : Proper counts) :
    Proper multiple ∧ (total multiple : ℚ) = c * total counts := by
  have htotal : (total multiple : ℚ) = c * total counts := by
    have hleft : ∀ b ∈ multiple.keys, b ∈ allBuckets multiple counts := fun b hb =>
      Finset.mem_union_left _ (List.mem_toFinset.mpr hb)
    have hright : ∀ b ∈ counts.keys, b ∈ allBuckets multiple counts := fun b hb =>
      Finset.mem_union_right _ (List.mem_toFinset.mpr hb)
    rw [total_eq_sum hleft, total_eq_sum hright, Int.cast_sum, Int.cast_sum, Finset.mul_sum]
    exact Finset.sum_congr rfl fun b _ => hm b
  refine ⟨⟨fun b => ?_, ?_⟩, htotal⟩
  · have hnonneg : (0 : ℚ) ≤ count multiple b := by
      rw [hm b]
      exact mul_nonneg hc.le (Int.cast_nonneg (h.nonneg b))
    exact_mod_cast hnonneg
  · have hpos : (0 : ℚ) < total multiple := by
      rw [htotal]
      exact mul_pos hc (Int.cast_pos.mpr h.positive)
    exact_mod_cast hpos

/-- A multiple has the same shares. -/
theorem share_multiple {c : ℚ} (hc : 0 < c) (h : Proper counts)
    (hm : IsMultiple c counts multiple) : share multiple = share counts := by
  funext b
  rw [share, hm b, (hm.proper hc h).2, share, mul_div_mul_left _ _ hc.ne']

/-! ## The score as an overlap -/

/-- The clamp has no effect, and any buckets that contain those of both histograms will do. -/
theorem similarityS_eq (he : Proper expected) (ho : Proper observed) {s : Finset Bucket}
    (hs : allBuckets expected observed ⊆ s) :
    similarityS expected observed = 1 - l1 expected observed / 2 ∧
      similarityS expected observed = Overlap.overlap s (share expected) (share observed) := by
  have hexpected : ∀ b ∈ expected.keys, b ∈ allBuckets expected observed := fun b hb =>
    Finset.mem_union_left _ (List.mem_toFinset.mpr hb)
  have hobserved : ∀ b ∈ observed.keys, b ∈ allBuckets expected observed := fun b hb =>
    Finset.mem_union_right _ (List.mem_toFinset.mpr hb)
  have hhalf : 1 - l1 expected observed / 2 =
      Overlap.overlap (allBuckets expected observed) (share expected) (share observed) :=
    one_sub_half_distance (sum_share he hexpected) (sum_share ho hobserved)
  have hnonneg : 0 ≤ 1 - l1 expected observed / 2 := by
    rw [hhalf]
    exact overlap_nonneg (fun b _ => share_nonneg he b) fun b _ => share_nonneg ho b
  have hscore : similarityS expected observed = 1 - l1 expected observed / 2 := by
    have := he.positive
    have := ho.positive
    rw [similarityS, if_neg (by omega), max_eq_right hnonneg]
  refine ⟨hscore, ?_⟩
  rw [hscore, hhalf]
  exact overlap_subset hs
    (fun b _ hnot => share_of_notMem fun hb => hnot (hexpected b hb))
    fun b _ hnot => share_of_notMem fun hb => hnot (hobserved b hb)

theorem allBuckets_comm : allBuckets expected observed = allBuckets observed expected :=
  Finset.union_comm _ _

theorem similarityS_comm (he : Proper expected) (ho : Proper observed) :
    similarityS expected observed = similarityS observed expected := by
  rw [(similarityS_eq he ho subset_rfl).2,
    (similarityS_eq (s := allBuckets expected observed) ho he allBuckets_comm.subset).2]
  exact overlap_comm

theorem similarityS_multiple {c : ℚ} (hc : 0 < c) (he : Proper expected) (ho : Proper observed)
    (hm : IsMultiple c expected multiple) :
    similarityS multiple observed = similarityS expected observed := by
  have hleft : allBuckets multiple observed ⊆
      allBuckets multiple observed ∪ allBuckets expected observed := Finset.subset_union_left
  have hright : allBuckets expected observed ⊆
      allBuckets multiple observed ∪ allBuckets expected observed := Finset.subset_union_right
  rw [(similarityS_eq (hm.proper hc he).1 ho hleft).2, (similarityS_eq he ho hright).2,
    share_multiple hc he hm]

/-- Shares are equal everywhere if they are on the buckets of both histograms. -/
theorem normalized_eq_iff (he : Proper expected) (ho : Proper observed) :
    (∀ buckets, normalized expected buckets = normalized observed buckets) ↔
      ∀ b ∈ allBuckets expected observed, share expected b = share observed b := by
  constructor
  · intro h b _
    have hb := h [b]
    rw [normalized_eq he, normalized_eq ho] at hb
    exact List.cons_eq_cons.mp hb |>.1
  · intro h buckets
    rw [normalized_eq he, normalized_eq ho]
    apply List.map_congr_left
    intro b _
    by_cases hb : b ∈ allBuckets expected observed
    · exact h b hb
    · rw [allBuckets, Finset.mem_union, List.mem_toFinset, List.mem_toFinset, not_or] at hb
      rw [share_of_notMem hb.1, share_of_notMem hb.2]

theorem inter_support_eq_empty_iff (he : Proper expected) (ho : Proper observed) :
    support expected ∩ support observed = ∅ ↔
      ∀ b ∈ allBuckets expected observed, share expected b = 0 ∨ share observed b = 0 := by
  rw [Set.eq_empty_iff_forall_notMem]
  refine forall_congr' fun b => ?_
  rw [share_eq_zero_iff he, share_eq_zero_iff ho]
  constructor
  · intro h _
    by_contra hboth
    rw [not_or] at hboth
    exact h hboth
  · rintro h ⟨hexpected, hobserved⟩
    by_cases hmem : b ∈ allBuckets expected observed
    · exact (h hmem).elim hexpected hobserved
    · rw [allBuckets, Finset.mem_union, List.mem_toFinset, List.mem_toFinset, not_or] at hmem
      exact hobserved (count_of_notMem hmem.2)

/-- With exact division the score is the overlap of the two distributions. -/
theorem similarity_proper (expected observed : Counts) (he : Proper expected)
    (ho : Proper observed) : ProperSimilarity expected observed := by
  obtain ⟨hscore, hoverlap⟩ := similarityS_eq he ho subset_rfl
  have hone := sum_share he (s := allBuckets expected observed) fun b hb =>
    Finset.mem_union_left _ (List.mem_toFinset.mpr hb)
  have hone' := sum_share ho (s := allBuckets expected observed) fun b hb =>
    Finset.mem_union_right _ (List.mem_toFinset.mpr hb)
  have hnonneg : 0 ≤ similarityS expected observed := by
    rw [hoverlap]
    exact overlap_nonneg (fun b _ => share_nonneg he b) fun b _ => share_nonneg ho b
  exact {
    overlap := by
      intro buckets hnodup hexpected hobserved
      have hs : allBuckets expected observed ⊆ buckets.toFinset := by
        intro b hb
        rw [allBuckets, Finset.mem_union, List.mem_toFinset, List.mem_toFinset] at hb
        exact List.mem_toFinset.mpr (hb.elim (fun h => hexpected h) fun h => hobserved h)
      rw [(similarityS_eq he ho hs).2, normalized_eq he, normalized_eq ho, Overlap.overlap,
        List.sum_toFinset _ hnodup, List.zipWith_map, List.zipWith_self]
    unclamped := ⟨hscore ▸ hnonneg, hscore⟩
    unit := by
      refine ⟨hnonneg, ?_⟩
      rw [hoverlap]
      exact overlap_le.trans hone.le
    symmetric := similarityS_comm he ho
    multipleExpected := fun c multiple hc hm => similarityS_multiple hc he ho hm
    multipleObserved := by
      intro c multiple hc hm
      rw [similarityS_comm he (hm.proper hc ho).1, similarityS_multiple hc ho he hm]
      exact similarityS_comm ho he
    eq_one_iff := by
      rw [hoverlap, normalized_eq_iff he ho]
      exact overlap_eq_one_iff hone hone'
    eq_zero_iff := by
      rw [hoverlap, inter_support_eq_empty_iff he ho]
      exact overlap_eq_zero_iff (fun b _ => share_nonneg he b) fun b _ => share_nonneg ho b }

theorem similarity_proper_small :
    ProperSimilarity (collect [((0, 0), 3), ((1, 1), 1)]) (collect [((1, 1), 2), ((2, 3), 0)]) :=
  similarity_proper _ _ (proper_collect (by decide) ⟨((1, 1), 1), by decide, by decide⟩)
    (proper_collect (by decide) ⟨((1, 1), 2), by decide, by decide⟩)

end RdSpeTool.PlotRdAcc
