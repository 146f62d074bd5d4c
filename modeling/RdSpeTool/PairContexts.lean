import RdSpeTool.BucketAgreement
import RdSpeTool.FrameText
import RdSpeTool.OrderedGroups
import RdSpeTool.Ranking

/-!
# The pair context report

`main` of `resolve_dwarf_pairs.py` groups the events by their two unwound stacks and PCs, counts the
buckets of each group, and ranks the groups by their long reuse distances. Ratios are exact
rationals here.
-/

namespace RdSpeTool

open OrderedGroups Ranking

namespace Resolver

/-! ## The code -/

structure PairKey where
  seedChain : List ℤ
  seedPcOffset : ℕ
  reuseChain : List ℤ
  reusePc : ℕ
  deriving DecidableEq

abbrev BucketMap := List ((ℕ × ℕ) × ℕ)

def eventKey (fdes : List Fde) (loadBias : ℤ) (ev : Event) : PairKey :=
  ⟨unwind fdes loadBias ev.seed, ev.seedPcOffset, unwind fdes loadBias ev.reuse, ev.reusePc⟩

def countEvent (ev : Event) (m : BucketMap) : BucketMap := upsert 0 (· + 1) (eventBounds ev) m

def groupEvents (fdes : List Fde) (loadBias : ℤ) (events : List Event) :
    List (PairKey × BucketMap) :=
  tabulate [] countEvent (eventKey fdes loadBias) events

def sortedItems (m : BucketMap) : BucketMap :=
  m.insertionSort fun a b => toLex (toLex a.1, a.2) ≤ toLex (toLex b.1, b.2)

structure PairContextRow where
  key : PairKey
  lo : ℕ
  hi : ℕ
  count : ℕ
  deriving DecidableEq

def histRows (groups : List (PairKey × BucketMap)) : List PairContextRow :=
  groups.flatMap fun g => (sortedItems g.2).map fun item => ⟨g.1, item.1.1, item.1.2, item.2⟩

structure BucketItem where
  bucketIndex : ℕ
  bucketLo : ℕ
  bucketHi : ℕ
  count : ℕ
  deriving DecidableEq

structure BucketTally where
  buckets : List BucketItem
  totalCount : ℕ
  longRdCount : ℕ
  topBucket : Option BucketItem

def tallyItem (longRdMinBucket : ℤ) (t : BucketTally) (p : (ℕ × ℕ) × ℕ) : BucketTally :=
  let item : BucketItem := ⟨bucketIndexFromBounds p.1.1 p.1.2, p.1.1, p.1.2, p.2⟩
  { buckets := t.buckets ++ [item]
    totalCount := t.totalCount + p.2
    longRdCount :=
      if longRdMinBucket ≤ item.bucketIndex then t.longRdCount + p.2 else t.longRdCount
    topBucket :=
      match t.topBucket with
      | none => some item
      | some top => if p.2 > top.count then some item else some top }

def tallyBuckets (longRdMinBucket : ℤ) (m : BucketMap) : BucketTally :=
  (sortedItems m).foldl (tallyItem longRdMinBucket) ⟨[], 0, 0, none⟩

structure PairEntry where
  entryId : ℕ
  key : PairKey
  seedFrames : List (ℤ × Text)
  reuseFrames : List (ℤ × Text)
  seedFunctions : List Text
  reuseFunctions : List Text
  buckets : List BucketItem
  totalCount : ℕ
  longRdCount : ℕ
  longRdRatio : ℚ
  topBucket : Option BucketItem

structure ReportOptions where
  longRdMinBucket : ℤ
  minCount : ℤ
  minLongRdRatio : ℚ
  top : ℤ
  topContexts : Option ℤ

section Main

variable (fdes : List Fde) (env : SymbolEnv) (normalizePath : Text → Text) (opts : ReportOptions)

def pairEntry (g : (PairKey × BucketMap) × ℕ) : Option PairEntry := do
  let seedFrames ← symbolizeChain env g.1.1.seedChain
  let reuseFrames ← symbolizeChain env g.1.1.reuseChain
  let t := tallyBuckets opts.longRdMinBucket g.1.2
  pure
    { entryId := g.2
      key := g.1.1
      seedFrames := seedFrames
      reuseFrames := reuseFrames
      seedFunctions := frameFunctions normalizePath seedFrames
      reuseFunctions := frameFunctions normalizePath reuseFrames
      buckets := t.buckets
      totalCount := t.totalCount
      longRdCount := t.longRdCount
      longRdRatio := if t.totalCount = 0 then 0 else (t.longRdCount : ℚ) / t.totalCount
      topBucket := t.topBucket }

def PairEntry.rank (e : PairEntry) : ℕ ×ₗ ℕ ×ₗ ℚ :=
  toLex (e.longRdCount, toLex (e.totalCount, e.longRdRatio))

structure PairReport where
  hist : List PairContextRow
  events : ℕ
  groups : ℕ
  entries : List PairEntry
  displayed : List PairEntry

/-- What `main` writes for the loaded events; `none` is the `IndexError` of a symbolizer that prints
too much. -/
def pairReport (events : List Event) : Option PairReport := do
  let grouped := groupEvents fdes env.loadBias events
  let unsorted ← (grouped.zipIdx 1).mapM (pairEntry env normalizePath opts)
  let entries := Ranking.ranked PairEntry.rank unsorted
  let displayEntries := entries.filter fun e =>
    opts.minCount ≤ e.totalCount ∧ opts.minLongRdRatio ≤ e.longRdRatio
  pure
    { hist := histRows grouped
      events := events.length
      groups := grouped.length
      entries := entries
      displayed := sliceTo displayEntries (opts.topContexts.getD opts.top) }

end Main

/-! ## The buckets of a group -/

def boundsOf (b : ℕ) : ℕ × ℕ := (bucketLo b, 2 ^ b - 1)

theorem eventBounds_eq_iff (ev : Event) (b : ℕ) : eventBounds ev = boundsOf b ↔ ev.bucket = b := by
  rw [eventBounds_eq]
  constructor
  · intro h
    have hindex := congrArg (fun p : ℕ × ℕ => bucketIndexFromBounds p.1 p.2) h
    simpa only [boundsOf, bucketIndexFromBounds_eq] using hindex
  · rintro rfl
    rfl

/-- Smaller bounds belong to a smaller bucket. -/
theorem lt_of_boundsOf_lt {b c : ℕ} (h : toLex (boundsOf b) < toLex (boundsOf c)) : b < c := by
  by_contra hle
  have hmono : toLex (boundsOf c) ≤ toLex (boundsOf b) := by
    have hlo := bucketLo_mono (not_lt.mp hle)
    have hhi : 2 ^ c - 1 ≤ 2 ^ b - 1 :=
      Nat.sub_le_sub_right (Nat.pow_le_pow_right (by omega) (not_lt.mp hle)) 1
    exact Prod.Lex.toLex_mono (Prod.mk_le_mk.mpr ⟨hlo, hhi⟩)
  exact absurd h (not_lt.mpr hmono)

def groupBuckets (g : List Event) : BucketMap := g.foldl (fun m ev => countEvent ev m) []

theorem groupBuckets_eq (g : List Event) : groupBuckets g =
    (firsts (g.map eventBounds)).map fun b => (b, (groupOf eventBounds g b).length) :=
  tabulate_count eventBounds g

theorem mem_groupBuckets {g : List Event} {p : (ℕ × ℕ) × ℕ} :
    p ∈ groupBuckets g ↔ ∃ b, p.1 = boundsOf b ∧ p.2 = g.countP (·.bucket = b) ∧ 0 < p.2 := by
  have hgroup : ∀ b, (groupOf eventBounds g (boundsOf b)).length = g.countP (·.bucket = b) := by
    intro b
    simp only [groupOf, eventBounds_eq_iff, List.countP_eq_length_filter]
  rw [groupBuckets_eq, List.mem_map]
  constructor
  · rintro ⟨bounds, hmem, rfl⟩
    obtain ⟨ev, hev, rfl⟩ := List.mem_map.mp (mem_firsts.mp hmem)
    have hb : eventBounds ev = boundsOf ev.bucket := eventBounds_eq ev
    refine ⟨ev.bucket, hb, ?_, ?_⟩
    · rw [hb, hgroup]
    · rw [hb, hgroup, List.countP_pos_iff]
      exact ⟨ev, hev, decide_eq_true rfl⟩
  · obtain ⟨bounds, n⟩ := p
    rintro ⟨b, rfl, hn, hpos⟩
    dsimp only at hn hpos
    rw [hn, List.countP_pos_iff] at hpos
    obtain ⟨ev, hev, hb⟩ := hpos
    refine ⟨boundsOf b, mem_firsts.mpr (List.mem_map.mpr ⟨ev, hev, ?_⟩), ?_⟩
    · exact (eventBounds_eq_iff ev b).mpr (of_decide_eq_true hb)
    · rw [hgroup, hn]

theorem groupBuckets_sum (g : List Event) : ((groupBuckets g).map Prod.snd).sum = g.length := by
  rw [groupBuckets_eq, List.map_map]
  exact length_groupOf eventBounds g

theorem nodup_groupBuckets (g : List Event) : ((groupBuckets g).map Prod.fst).Nodup := by
  rw [groupBuckets_eq, List.map_map]
  exact (List.map_id _).symm ▸ nodup_firsts _

theorem sortedItems_perm (m : BucketMap) : (sortedItems m).Perm m := List.perm_insertionSort _ m

/-- With one count for each bucket the sorted items go up in their bounds. -/
theorem sortedItems_pairwise {m : BucketMap} (h : (m.map Prod.fst).Nodup) :
    (sortedItems m).Pairwise fun a b => toLex a.1 < toLex b.1 := by
  have htotal : Std.Total fun a b : (ℕ × ℕ) × ℕ =>
      toLex (toLex a.1, a.2) ≤ toLex (toLex b.1, b.2) := ⟨fun a b => le_total _ _⟩
  have htrans : IsTrans ((ℕ × ℕ) × ℕ) fun a b =>
      toLex (toLex a.1, a.2) ≤ toLex (toLex b.1, b.2) := ⟨fun a b c => le_trans⟩
  have hsorted : (sortedItems m).Pairwise fun a b =>
      toLex (toLex a.1, a.2) ≤ toLex (toLex b.1, b.2) := List.pairwise_insertionSort _ m
  have hne : (sortedItems m).Pairwise fun a b => a.1 ≠ b.1 := by
    rw [← List.pairwise_map]
    exact ((sortedItems_perm m).map Prod.fst).nodup_iff.mpr h
  apply (hne.and hsorted).imp
  rintro a b ⟨hab, hle⟩
  exact lt_of_le_of_ne (Prod.Lex.monotone_fst _ _ hle) fun he => hab (toLex.injective he)

/-! ## The bucket loop -/

def bucketItem (p : (ℕ × ℕ) × ℕ) : BucketItem :=
  ⟨bucketIndexFromBounds p.1.1 p.1.2, p.1.1, p.1.2, p.2⟩

def FirstMax (items : List BucketItem) (top : BucketItem) : Prop :=
  ∃ front rest, items = front ++ top :: rest ∧ (∀ i ∈ front, i.count < top.count) ∧
    ∀ i ∈ rest, i.count ≤ top.count

/-- What the accumulators hold after some items. -/
structure BucketTally.Covers (t : BucketTally) (minBucket : ℤ) (items : BucketMap) : Prop where
  buckets : t.buckets = items.map bucketItem
  totalCount : t.totalCount = (items.map Prod.snd).sum
  longRdCount : t.longRdCount =
    ((items.filter fun p => minBucket ≤ (bucketItem p).bucketIndex).map Prod.snd).sum
  empty : t.topBucket = none → items = []
  topBucket : ∀ top, t.topBucket = some top → FirstMax t.buckets top

theorem BucketTally.Covers.step {t : BucketTally} {minBucket : ℤ} {items : BucketMap}
    (h : t.Covers minBucket items) (p : (ℕ × ℕ) × ℕ) :
    (tallyItem minBucket t p).Covers minBucket (items ++ [p]) := by
  have htop : (tallyItem minBucket t p).topBucket =
      match t.topBucket with
      | none => some (bucketItem p)
      | some top => if p.2 > top.count then some (bucketItem p) else some top := rfl
  refine ⟨?_, ?_, ?_, ?_, ?_⟩
  · change t.buckets ++ [bucketItem p] = _
    rw [h.buckets, List.map_append, List.map_singleton]
  · change t.totalCount + p.2 = _
    rw [h.totalCount, List.map_append, List.sum_append, List.map_singleton, List.sum_singleton]
  · change (if minBucket ≤ (bucketItem p).bucketIndex then t.longRdCount + p.2 else
      t.longRdCount) = _
    rw [List.filter_append, List.map_append, List.sum_append, ← h.longRdCount]
    split_ifs with hlong
    · simp [hlong]
    · simp [hlong]
  · intro hnone
    rw [htop] at hnone
    cases ht : t.topBucket with
    | none =>
        rw [ht] at hnone
        cases hnone
    | some top =>
        rw [ht] at hnone
        dsimp only at hnone
        split_ifs at hnone
  · intro top hsome
    change FirstMax (t.buckets ++ [bucketItem p]) top
    rw [htop] at hsome
    cases ht : t.topBucket with
    | none =>
        rw [ht] at hsome
        obtain rfl := Option.some.inj hsome
        rw [h.buckets, h.empty ht]
        exact ⟨[], [], rfl, by simp, by simp⟩
    | some old =>
        rw [ht] at hsome
        dsimp only at hsome
        obtain ⟨front, rest, hbuckets, hfront, hrest⟩ := h.topBucket old ht
        split_ifs at hsome with hgt
        · obtain rfl := Option.some.inj hsome
          refine ⟨t.buckets, [], rfl, ?_, by simp⟩
          intro j hj
          have hle : j.count ≤ old.count := by
            rw [hbuckets, List.mem_append, List.mem_cons] at hj
            rcases hj with hj | rfl | hj
            · exact (hfront j hj).le
            · exact le_rfl
            · exact hrest j hj
          exact hle.trans_lt hgt
        · obtain rfl := Option.some.inj hsome
          refine ⟨front, rest ++ [bucketItem p], by rw [hbuckets]; simp, hfront, ?_⟩
          intro j hj
          rcases List.mem_append.mp hj with hj | hj
          · exact hrest j hj
          · rw [List.mem_singleton.mp hj]
            exact not_lt.mp hgt

theorem tallyBuckets_covers (minBucket : ℤ) (m : BucketMap) :
    (tallyBuckets minBucket m).Covers minBucket (sortedItems m) := by
  unfold tallyBuckets
  induction sortedItems m using List.reverseRecOn with
  | nil => exact ⟨rfl, rfl, rfl, fun _ => rfl, fun _ h => nomatch h⟩
  | append_singleton items p ih =>
      rw [List.foldl_append]
      exact ih.step p

/-- An entry describes a group of events: one item for each bucket that has events, with their
number, in ascending order, and the sums over the items. -/
structure PairEntry.Describes (minBucket : ℤ) (g : List Event) (e : PairEntry) : Prop where
  items : ∀ item, item ∈ e.buckets ↔ item.count = g.countP (·.bucket = item.bucketIndex) ∧
    0 < item.count ∧ (item.bucketLo, item.bucketHi) = boundsOf item.bucketIndex
  ascending : e.buckets.Pairwise fun a b => a.bucketIndex < b.bucketIndex
  total : e.totalCount = g.length
  long : e.longRdCount = g.countP fun ev => minBucket ≤ ev.bucket
  ratio : e.longRdRatio = (e.longRdCount : ℚ) / e.totalCount
  top : g ≠ [] → ∃ top, e.topBucket = some top ∧ FirstMax e.buckets top

theorem bucketItem_boundsOf (b n : ℕ) :
    bucketItem (boundsOf b, n) = ⟨b, (boundsOf b).1, (boundsOf b).2, n⟩ := by
  unfold bucketItem
  dsimp only [boundsOf]
  rw [bucketIndexFromBounds_eq]

/-- The accumulators of the bucket loop describe the group that was counted. -/
theorem tallyBuckets_items (minBucket : ℤ) (g : List Event) {item : BucketItem} :
    item ∈ (tallyBuckets minBucket (groupBuckets g)).buckets ↔
      item.count = g.countP (·.bucket = item.bucketIndex) ∧ 0 < item.count ∧
        (item.bucketLo, item.bucketHi) = boundsOf item.bucketIndex := by
  rw [(tallyBuckets_covers minBucket _).buckets, List.mem_map]
  constructor
  · rintro ⟨⟨bounds, n⟩, hp, rfl⟩
    obtain ⟨b, rfl, hn, hpos⟩ := mem_groupBuckets.mp ((sortedItems_perm _).mem_iff.mp hp)
    rw [bucketItem_boundsOf]
    exact ⟨hn, hpos, rfl⟩
  · obtain ⟨b, lo, hi, n⟩ := item
    rintro ⟨hn, hpos, hbounds⟩
    refine ⟨(boundsOf b, n), (sortedItems_perm _).mem_iff.mpr
      (mem_groupBuckets.mpr ⟨b, rfl, hn, hpos⟩), ?_⟩
    dsimp only at hbounds
    rw [bucketItem_boundsOf, ← hbounds]

theorem tallyBuckets_long (minBucket : ℤ) (g : List Event) :
    (tallyBuckets minBucket (groupBuckets g)).longRdCount =
      g.countP fun ev => minBucket ≤ ev.bucket := by
  have hperm := ((sortedItems_perm (groupBuckets g)).filter
    fun p => minBucket ≤ (bucketItem p).bucketIndex).map Prod.snd
  rw [(tallyBuckets_covers minBucket _).longRdCount, hperm.sum_eq]
  have hsplit := List.sum_map_ite (fun p : (ℕ × ℕ) × ℕ => minBucket ≤ (bucketItem p).bucketIndex)
    Prod.snd (fun _ => 0) (groupBuckets g)
  simp only [List.map_const', List.sum_replicate, smul_zero, add_zero] at hsplit
  rw [← hsplit, groupBuckets_eq, List.map_map]
  refine @countP_groupOf _ _ _ eventBounds (fun ev => minBucket ≤ ev.bucket)
    (fun b => minBucket ≤ (bucketIndexFromBounds b.1 b.2 : ℤ)) _ _ g ?_
  intro ev _
  rw [eventBounds_eq]
  dsimp only
  rw [bucketIndexFromBounds_eq]

theorem tallyBuckets_ascending (minBucket : ℤ) (g : List Event) :
    (tallyBuckets minBucket (groupBuckets g)).buckets.Pairwise
      fun a b => a.bucketIndex < b.bucketIndex := by
  rw [(tallyBuckets_covers minBucket _).buckets, List.pairwise_map]
  apply (sortedItems_pairwise (nodup_groupBuckets g)).imp_of_mem
  rintro ⟨bounds, n⟩ ⟨bounds', n'⟩ hp hp' hlt
  obtain ⟨b, rfl, -⟩ := mem_groupBuckets.mp ((sortedItems_perm _).mem_iff.mp hp)
  obtain ⟨b', rfl, -⟩ := mem_groupBuckets.mp ((sortedItems_perm _).mem_iff.mp hp')
  rw [bucketItem_boundsOf, bucketItem_boundsOf]
  exact lt_of_boundsOf_lt hlt

theorem tallyBuckets_total (minBucket : ℤ) (g : List Event) :
    (tallyBuckets minBucket (groupBuckets g)).totalCount = g.length := by
  rw [(tallyBuckets_covers minBucket _).totalCount,
    ((sortedItems_perm (groupBuckets g)).map Prod.snd).sum_eq, groupBuckets_sum]

theorem tallyBuckets_top (minBucket : ℤ) {g : List Event} (hg : g ≠ []) :
    ∃ top, (tallyBuckets minBucket (groupBuckets g)).topBucket = some top ∧
      FirstMax (tallyBuckets minBucket (groupBuckets g)).buckets top := by
  have hcovers := tallyBuckets_covers minBucket (groupBuckets g)
  cases ht : (tallyBuckets minBucket (groupBuckets g)).topBucket with
  | some top => exact ⟨top, rfl, hcovers.topBucket top ht⟩
  | none =>
      have hsum := groupBuckets_sum g
      rw [← ((sortedItems_perm (groupBuckets g)).map Prod.snd).sum_eq, hcovers.empty ht] at hsum
      exact absurd (List.length_eq_zero_iff.mp hsum.symm) hg

/-! ## The entries -/

section Entries

variable {fdes : List Fde} {env : SymbolEnv} {normalizePath : Text → Text} {opts : ReportOptions}

theorem pairEntry_ok {g : List Event} {key : PairKey} {n : ℕ} {e : PairEntry}
    (h : pairEntry env normalizePath opts ((key, groupBuckets g), n) = some e) :
    e.entryId = n ∧ e.key = key ∧ e.Describes opts.longRdMinBucket g := by
  unfold pairEntry at h
  obtain ⟨seedFrames, -, h⟩ := Option.bind_eq_some_iff.mp h
  obtain ⟨reuseFrames, -, h⟩ := Option.bind_eq_some_iff.mp h
  obtain rfl := Option.some.inj h
  refine ⟨rfl, rfl, ?_, ?_, ?_, ?_, ?_, ?_⟩
  · exact fun item => tallyBuckets_items _ g
  · exact tallyBuckets_ascending _ g
  · exact tallyBuckets_total _ g
  · exact tallyBuckets_long _ g
  · dsimp only
    split_ifs with hzero
    · rw [hzero, Nat.cast_zero, div_zero]
    · rfl
  · exact tallyBuckets_top _

theorem map_of_mapM {α β γ : Type} {f : α → Option β} {g : β → γ} {g' : α → γ} {l : List α}
    {r : List β} (h : l.mapM f = some r) (hg : ∀ a ∈ l, ∀ b, f a = some b → g b = g' a) :
    r.map g = l.map g' := by
  rw [mapM_eq_some_iff] at h
  induction l generalizing r with
  | nil =>
      obtain rfl := List.map_eq_nil_iff.mp h.symm
      rfl
  | cons a l ih =>
      cases r with
      | nil => cases h
      | cons b r =>
          obtain ⟨hb, hrest⟩ := List.cons.inj h
          rw [List.map_cons, List.map_cons, hg a List.mem_cons_self b hb,
            ih hrest fun a ha => hg a (List.mem_cons_of_mem _ ha)]

theorem groupEvents_eq (events : List Event) :
    groupEvents fdes env.loadBias events = (firsts (events.map (eventKey fdes env.loadBias))).map
      fun key => (key, groupBuckets (groupOf (eventKey fdes env.loadBias) events key)) :=
  tabulate_eq [] countEvent (eventKey fdes env.loadBias) events

structure Unsorted (fdes : List Fde) (env : SymbolEnv) (opts : ReportOptions) (events : List Event)
    (entries : List PairEntry) : Prop where
  keys : entries.map PairEntry.key = firsts (events.map (eventKey fdes env.loadBias))
  ids : entries.map PairEntry.entryId = List.range' 1 entries.length
  describes : ∀ e ∈ entries, e.Describes opts.longRdMinBucket
    (groupOf (eventKey fdes env.loadBias) events e.key)

theorem unsorted_of_mapM {events : List Event} {entries : List PairEntry}
    (h : ((groupEvents fdes env.loadBias events).zipIdx 1).mapM
      (pairEntry env normalizePath opts) = some entries) :
    Unsorted fdes env opts events entries := by
  have hgroup : ∀ p ∈ (groupEvents fdes env.loadBias events).zipIdx 1, p.1.2 =
      groupBuckets (groupOf (eventKey fdes env.loadBias) events p.1.1) := by
    rintro ⟨g, n⟩ hp
    have hmem := List.fst_mem_of_mem_zipIdx hp
    rw [groupEvents_eq] at hmem
    obtain ⟨key, -, he⟩ := List.mem_map.mp hmem
    exact he ▸ rfl
  have hentry : ∀ p ∈ (groupEvents fdes env.loadBias events).zipIdx 1, ∀ e,
      pairEntry env normalizePath opts p = some e → e.entryId = p.2 ∧ e.key = p.1.1 ∧
        e.Describes opts.longRdMinBucket (groupOf (eventKey fdes env.loadBias) events p.1.1) := by
    rintro ⟨⟨key, m⟩, n⟩ hp e he
    have hm : m = groupBuckets (groupOf (eventKey fdes env.loadBias) events key) := hgroup _ hp
    rw [hm] at he
    exact pairEntry_ok he
  have hlen : entries.length = (groupEvents fdes env.loadBias events).length := by
    have hmap := congrArg List.length (mapM_eq_some_iff.mp h)
    simpa using hmap.symm
  refine ⟨?_, ?_, ?_⟩
  · have hkeys := map_of_mapM h fun p hp e he => (hentry p hp e he).2.1
    have hfst : ((groupEvents fdes env.loadBias events).zipIdx 1).map (fun p => p.1.1) =
        (groupEvents fdes env.loadBias events).map Prod.fst := by
      rw [← List.zipIdx_map_fst 1 (groupEvents fdes env.loadBias events), List.map_map,
        List.zipIdx_map_fst]
      rfl
    rw [hkeys, hfst, groupEvents_eq, List.map_map]
    exact List.map_id _
  · rw [map_of_mapM h fun p hp e he => (hentry p hp e he).1, hlen]
    exact List.zipIdx_map_snd 1 _
  · intro e he
    have hmem : some e ∈ ((groupEvents fdes env.loadBias events).zipIdx 1).map
        (pairEntry env normalizePath opts) := by
      rw [mapM_eq_some_iff.mp h]
      exact List.mem_map_of_mem he
    obtain ⟨p, hp, hpe⟩ := List.mem_map.mp hmem
    obtain ⟨-, hkey, hdesc⟩ := hentry p hp e hpe
    rw [hkey]
    exact hdesc

theorem Unsorted.total {events : List Event} {entries : List PairEntry}
    (h : Unsorted fdes env opts events entries) :
    (entries.map PairEntry.totalCount).sum = events.length := by
  have htotal : entries.map PairEntry.totalCount = (entries.map PairEntry.key).map
      fun key => (groupOf (eventKey fdes env.loadBias) events key).length := by
    rw [List.map_map]
    exact List.map_congr_left fun e he => (h.describes e he).total
  rw [htotal, h.keys]
  exact length_groupOf _ events

/-- A report ranks the entries of the groups. -/
theorem pairReport_entries {events : List Event} {r : PairReport}
    (h : pairReport fdes env normalizePath opts events = some r) :
    ∃ unsorted, Unsorted fdes env opts events unsorted ∧
      r.entries = Ranking.ranked PairEntry.rank unsorted := by
  unfold pairReport at h
  obtain ⟨unsorted, hunsorted, h⟩ := Option.bind_eq_some_iff.mp h
  obtain rfl := Option.some.inj h
  exact ⟨unsorted, unsorted_of_mapM hunsorted, rfl⟩

/-- Row and entry of a group list the same buckets. -/
theorem mem_histRows {events : List Event} {row : PairContextRow} :
    row ∈ histRows (groupEvents fdes env.loadBias events) ↔
      row.key ∈ events.map (eventKey fdes env.loadBias) ∧ ∃ b, (row.lo, row.hi) = boundsOf b ∧
        row.count = (groupOf (eventKey fdes env.loadBias) events row.key).countP (·.bucket = b) ∧
        0 < row.count := by
  unfold histRows
  rw [groupEvents_eq, List.mem_flatMap]
  constructor
  · rintro ⟨g, hg, hrow⟩
    obtain ⟨key, hkey, rfl⟩ := List.mem_map.mp hg
    obtain ⟨p, hp, rfl⟩ := List.mem_map.mp hrow
    exact ⟨mem_firsts.mp hkey, mem_groupBuckets.mp ((sortedItems_perm _).mem_iff.mp hp)⟩
  · rintro ⟨hkey, hb⟩
    refine ⟨_, List.mem_map.mpr ⟨row.key, mem_firsts.mpr hkey, rfl⟩, ?_⟩
    refine List.mem_map.mpr ⟨((row.lo, row.hi), row.count), ?_, rfl⟩
    exact (sortedItems_perm _).mem_iff.mpr (mem_groupBuckets.mpr hb)

theorem nodup_histRows (events : List Event) :
    ((histRows (groupEvents fdes env.loadBias events)).map
      fun row => (row.key, row.lo, row.hi)).Nodup := by
  unfold histRows
  rw [List.map_flatMap, List.nodup_flatMap]
  constructor
  · intro g hg
    rw [groupEvents_eq] at hg
    obtain ⟨key, -, rfl⟩ := List.mem_map.mp hg
    rw [List.map_map]
    have hnd := ((sortedItems_perm _).map Prod.fst).nodup_iff.mpr
      (nodup_groupBuckets (groupOf (eventKey fdes env.loadBias) events key))
    have hmap := hnd.map (f := fun b => (key, b)) fun a b h => (Prod.mk.inj h).2
    rwa [List.map_map] at hmap
  · have hnd : ((groupEvents fdes env.loadBias events).map Prod.fst).Nodup := by
      rw [groupEvents_eq, List.map_map]
      exact (List.map_id _).symm ▸ nodup_firsts _
    rw [List.Nodup, List.pairwise_map] at hnd
    apply hnd.imp
    intro g g' hne row hrow hrow'
    obtain ⟨r, hr, rfl⟩ := List.mem_map.mp hrow
    obtain ⟨r', hr', he⟩ := List.mem_map.mp hrow'
    obtain ⟨p, -, rfl⟩ := List.mem_map.mp hr
    obtain ⟨p', -, rfl⟩ := List.mem_map.mp hr'
    exact hne (Prod.mk.inj he).1.symm

theorem sum_histRows (events : List Event) :
    ((histRows (groupEvents fdes env.loadBias events)).map PairContextRow.count).sum =
      events.length := by
  have hgroup : ∀ g ∈ groupEvents fdes env.loadBias events,
      ((sortedItems g.2).map Prod.snd).sum =
        (groupOf (eventKey fdes env.loadBias) events g.1).length := by
    intro g hg
    rw [groupEvents_eq] at hg
    obtain ⟨key, -, rfl⟩ := List.mem_map.mp hg
    rw [((sortedItems_perm _).map Prod.snd).sum_eq, groupBuckets_sum]
  unfold histRows
  rw [List.map_flatMap, List.flatMap_def, List.sum_flatten]
  simp only [List.map_map, Function.comp_def]
  rw [List.map_congr_left hgroup, groupEvents_eq, List.map_map]
  exact length_groupOf _ events

/-- Ranked by long distances, then by all, then by first appearance. -/
def PairEntry.Precedes (a b : PairEntry) : Prop :=
  toLex (b.longRdCount, b.totalCount) < toLex (a.longRdCount, a.totalCount) ∨
    a.longRdCount = b.longRdCount ∧ a.totalCount = b.totalCount ∧ a.entryId < b.entryId

/-- The ratio never decides: equal counts have equal ratios. -/
theorem precedes_of_before {a b : PairEntry}
    (ha : a.longRdRatio = (a.longRdCount : ℚ) / a.totalCount)
    (hb : b.longRdRatio = (b.longRdCount : ℚ) / b.totalCount)
    (h : Before PairEntry.rank (fun a b => a.entryId < b.entryId) a b) : a.Precedes b := by
  rcases h with h | ⟨heq, hid⟩
  · left
    rw [PairEntry.rank, PairEntry.rank, Prod.Lex.toLex_lt_toLex, Prod.Lex.toLex_lt_toLex] at h
    rw [Prod.Lex.toLex_lt_toLex]
    rcases h with hlong | ⟨hlong, htotal | ⟨htotal, hratio⟩⟩
    · exact .inl hlong
    · exact .inr ⟨hlong, htotal⟩
    · dsimp only at hlong htotal hratio
      rw [ha, hb, hlong, htotal] at hratio
      exact absurd hratio (lt_irrefl _)
  · right
    have hlong := congrArg (fun k => (ofLex k).1) heq
    have htotal := congrArg (fun k => (ofLex (ofLex k).2).1) heq
    exact ⟨hlong, htotal, hid⟩

theorem Unsorted.precedes {events : List Event} {entries : List PairEntry}
    (h : Unsorted fdes env opts events entries) :
    (Ranking.ranked PairEntry.rank entries).Pairwise PairEntry.Precedes := by
  have hids : entries.Pairwise fun a b => a.entryId < b.entryId := by
    rw [← List.pairwise_map, h.ids]
    exact List.pairwise_lt_range'
  apply (ranked_pairwise PairEntry.rank _ hids).imp_of_mem
  intro a b ha hb hbefore
  rw [mem_ranked] at ha hb
  exact precedes_of_before (h.describes a ha).ratio (h.describes b hb).ratio hbefore

/-- What a report says about the events it was made from. -/
structure PairReport.Accounts (fdes : List Fde) (env : SymbolEnv) (opts : ReportOptions)
    (events : List Event) (r : PairReport) : Prop where
  counted : r.events = events.length ∧ r.groups = r.entries.length
  /-- Each pair of contexts that has events has one entry, numbered by its first event. -/
  ids : ∀ (i : ℕ) (key : PairKey),
    (firsts (events.map (eventKey fdes env.loadBias)))[i]? = some key ↔
      ∃ e ∈ r.entries, e.entryId = i + 1 ∧ e.key = key
  nodup : (r.entries.map PairEntry.key).Nodup
  describes : ∀ e ∈ r.entries, e.Describes opts.longRdMinBucket
    (groupOf (eventKey fdes env.loadBias) events e.key)
  total : (r.entries.map PairEntry.totalCount).sum = events.length
  order : r.entries.Pairwise PairEntry.Precedes
  /-- The histogram file has one row for each item of an entry. -/
  hist : ∀ row, row ∈ r.hist ↔ ∃ e ∈ r.entries, ∃ item ∈ e.buckets,
    row = ⟨e.key, item.bucketLo, item.bucketHi, item.count⟩
  histNodup : (r.hist.map fun row => (row.key, row.lo, row.hi)).Nodup
  histTotal : (r.hist.map PairContextRow.count).sum = events.length
  displayed : r.displayed <+: r.entries.filter fun e =>
    opts.minCount ≤ e.totalCount ∧ opts.minLongRdRatio ≤ e.longRdRatio

/-- Every event is counted in one bucket of one entry, histogram and JSON report agree, and the
ranking depends on the counts and on the order of the events only. -/
theorem pair_report_accounts (fdes : List Fde) (env : SymbolEnv) (normalizePath : Text → Text)
    (opts : ReportOptions) (events : List Event) (r : PairReport)
    (h : pairReport fdes env normalizePath opts events = some r) :
    r.Accounts fdes env opts events := by
  unfold pairReport at h
  obtain ⟨unsorted, hunsorted, h⟩ := Option.bind_eq_some_iff.mp h
  obtain rfl := Option.some.inj h
  have hu := unsorted_of_mapM hunsorted
  have hperm := ranked_perm PairEntry.rank unsorted
  have hmem : ∀ e, e ∈ Ranking.ranked PairEntry.rank unsorted ↔ e ∈ unsorted := fun _ => mem_ranked
  have hdesc : ∀ e ∈ Ranking.ranked PairEntry.rank unsorted, e.Describes opts.longRdMinBucket
      (groupOf (eventKey fdes env.loadBias) events e.key) :=
    fun e he => hu.describes e ((hmem e).mp he)
  refine ⟨⟨rfl, ?_⟩, ?_, ?_, hdesc, ?_, ?_, ?_, ?_, ?_, ?_⟩
  · dsimp only
    rw [hperm.length_eq, ← List.length_map (f := PairEntry.key), hu.keys, groupEvents_eq,
      List.length_map]
  · intro i key
    have hids := hu.ids
    constructor
    · intro hkey
      rw [← hu.keys, List.getElem?_map, Option.map_eq_some_iff] at hkey
      obtain ⟨e, he, rfl⟩ := hkey
      refine ⟨e, (hmem e).mpr (List.mem_of_getElem? he), ?_, rfl⟩
      have hid := congrArg (fun l => l[i]?) hids
      rw [List.getElem?_map, he, Option.map_some,
        List.getElem?_range' (List.getElem?_eq_some_iff.mp he).1] at hid
      have := Option.some.inj hid
      omega
    · rintro ⟨e, he, hid, rfl⟩
      obtain ⟨j, hj⟩ := List.getElem?_of_mem ((hmem e).mp he)
      have hidj := congrArg (fun l => l[j]?) hids
      rw [List.getElem?_map, hj, Option.map_some,
        List.getElem?_range' (List.getElem?_eq_some_iff.mp hj).1] at hidj
      have hji := Option.some.inj hidj
      obtain rfl : j = i := by omega
      rw [← hu.keys, List.getElem?_map, hj, Option.map_some]
  · have hnd := (hperm.map PairEntry.key).nodup_iff.mpr
    apply hnd
    rw [hu.keys]
    exact nodup_firsts _
  · dsimp only
    rw [(hperm.map PairEntry.totalCount).sum_eq, hu.total]
  · exact hu.precedes
  · intro row
    dsimp only
    rw [mem_histRows]
    constructor
    · rintro ⟨hkey, b, hbounds, hcount, hpos⟩
      rw [← mem_firsts, ← hu.keys] at hkey
      obtain ⟨e, he, hek⟩ := List.mem_map.mp hkey
      refine ⟨e, (hmem e).mpr he, ⟨b, row.lo, row.hi, row.count⟩,
        ((hu.describes e he).items _).mpr ⟨?_, hpos, hbounds⟩, ?_⟩
      · rw [hek]
        exact hcount
      · rw [hek]
    · rintro ⟨e, he, item, hitem, rfl⟩
      have heu := (hmem e).mp he
      obtain ⟨hcount, hpos, hbounds⟩ := ((hu.describes e heu).items item).mp hitem
      refine ⟨?_, item.bucketIndex, hbounds, hcount, hpos⟩
      rw [← mem_firsts, ← hu.keys]
      exact List.mem_map_of_mem heu
  · exact nodup_histRows events
  · exact sum_histRows events
  · exact sliceTo_prefix _ _

end Entries

def smallEvent (bucket : ℕ) : Event where
  threadIndex := 0
  eventIndex := 0
  used := 1
  bucket := bucket
  tid := 7
  targetIndex := 0
  seedPcOffset := 0x10
  seedPc := 0x1010
  reusePc := 0x1020
  seedAccess := 5
  hitAccess := 9
  delta := 4
  seed := ⟨[], 0, 0, 0, 0, 0, []⟩
  reuse := ⟨[], 0, 0, 0, 0, 0, []⟩

def smallPairEvent (bucket pc : ℕ) : Event :=
  { smallEvent bucket with
    seed := ⟨[], 0, 0x1010, 0, 0, 0, []⟩
    reuse := ⟨[], 0, pc, 0, 0, 0, []⟩ }

def smallPairEvents : List Event :=
  [smallPairEvent 2 0x1010, smallPairEvent 3 0x7f20, smallPairEvent 5 0x7f20]

def PairEntry.counts (e : PairEntry) : ℕ × List ℤ × List ℤ × ℕ × ℕ :=
  (e.entryId, e.key.seedChain, e.key.reuseChain, e.totalCount, e.longRdCount)

/-- The second pair of contexts has two of the three events, both at a long distance. -/
theorem pair_report_accounts_small : ∃ r,
    pairReport [] smallSymbolEnv id ⟨3, 1, 0, 20, none⟩ smallPairEvents = some r ∧
      r.entries.map PairEntry.counts =
        [(2, [0x1010], [0x7f20], 2, 2), (1, [0x1010], [0x1010], 1, 0)] ∧
      r.entries.map PairEntry.reuseFunctions = [["sin".toList], ["main".toList]] ∧
      (r.entries.map PairEntry.totalCount).sum = 3 ∧
      (r.hist.map PairContextRow.count).sum = 3 := by
  have hcounts : (pairReport [] smallSymbolEnv id ⟨3, 1, 0, 20, none⟩ smallPairEvents).map
      (fun r => r.entries.map PairEntry.counts) =
        some [(2, [0x1010], [0x7f20], 2, 2), (1, [0x1010], [0x1010], 1, 0)] := by
    decide +kernel
  have hfunctions : (pairReport [] smallSymbolEnv id ⟨3, 1, 0, 20, none⟩ smallPairEvents).map
      (fun r => r.entries.map PairEntry.reuseFunctions) =
        some [["sin".toList], ["main".toList]] := by
    decide +kernel
  obtain ⟨r, hr, hcounts⟩ := Option.map_eq_some_iff.mp hcounts
  rw [hr, Option.map_some, Option.some.injEq] at hfunctions
  have haccounts := pair_report_accounts [] smallSymbolEnv id ⟨3, 1, 0, 20, none⟩
    smallPairEvents r hr
  exact ⟨r, hr, hcounts, hfunctions, haccounts.total, haccounts.histTotal⟩

end Resolver

end RdSpeTool
