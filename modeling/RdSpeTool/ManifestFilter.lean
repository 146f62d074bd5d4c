import RdSpeTool.HotspotManifest
import RdSpeTool.OrderedGroups

/-!
# Filtering a manifest and choosing targets

The resolver's manifest has the kept entries of the monitor's one, with new ranks. The second stage
reads the same sums and the same order of candidates from it as from the monitor's manifest without
the lines of the dropped PCs.
-/

namespace RdSpeTool

open CText PyText GeneralFormat StrictSort

/-! ## Lists by groups -/

theorem map_mapIdx {α β γ : Type*} (l : List α) (f : ℕ → α → β) (g : β → γ) :
    (l.mapIdx f).map g = l.mapIdx fun i a => g (f i a) := by
  rw [List.mapIdx_eq_zipIdx_map, List.mapIdx_eq_zipIdx_map, List.map_map]
  rfl

theorem mapIdx_map {α β γ : Type*} (l : List α) (f : α → β) (g : ℕ → β → γ) :
    (l.map f).mapIdx g = l.mapIdx fun i a => g i (f a) := by
  rw [List.mapIdx_eq_iff]
  intro i
  simp [Function.comp_def]

section Groups

variable {α κ : Type*} [DecidableEq κ] (key : α → κ) {ks : List κ}

/-- One group of a list that is made of groups. -/
theorem filter_flatMap_group {g : κ → List α} (h : ks.Nodup)
    (hg : ∀ k ∈ ks, ∀ a ∈ g k, key a = k) (k : κ) :
    (ks.flatMap g).filter (key · = k) = if k ∈ ks then g k else [] := by
  induction ks with
  | nil => rfl
  | cons k' ks ih =>
      rw [List.nodup_cons] at h
      rw [List.forall_mem_cons] at hg
      rw [List.flatMap_cons, List.filter_append, ih h.2 hg.2]
      by_cases hk : k = k'
      · subst hk
        rw [if_neg h.1, if_pos List.mem_cons_self, List.append_nil, List.filter_eq_self]
        intro a ha
        exact decide_eq_true (hg.1 a ha)
      · have hnil : (g k').filter (key · = k) = [] := by
          rw [List.filter_eq_nil_iff]
          intro a ha
          rw [hg.1 a ha]
          simpa using Ne.symm hk
        have hmem : k ∈ k' :: ks ↔ k ∈ ks := by
          rw [List.mem_cons]
          exact or_iff_right hk
        rw [hnil, List.nil_append]
        simp only [hmem]

end Groups

/-! ## The monitor's manifest -/

def HotspotSummary.toEntry (rank : ℤ) (s : HotspotSummary) : HotpcEntry where
  tid := s.tid
  rank := rank
  sampleCount := s.sampleCount.toNat
  moduleId := s.moduleId.toNat
  pcOffset := s.pcOffset.toNat
  path := s.path
  paretoFront := s.paretoFront.toNat
  candidateScore := s.candidateScore.toNat
  candidateMetric := s.candidateMetric
  avgMemLatency := .finite s.avgMemLatency
  latTotalSum := s.latTotalSum.toNat
  latIssueSum := s.latIssueSum.toNat
  latXlatSum := s.latXlatSum.toNat
  latExecSum := s.latExecSum.toNat
  l1dRefillCount := s.l1dRefillCount.toNat
  llcMissCount := s.llcMissCount.toNat
  tlbWalkCount := s.tlbWalkCount.toNat
  remoteAccessCount := s.remoteAccessCount.toNat

def ManifestSource.threadEntries (m : ManifestSource) (tid : ℤ) : List HotpcEntry :=
  (m.collect tid).mapIdx fun i s => s.toEntry (i + 1)

def ManifestSource.entries (m : ManifestSource) : List HotpcEntry :=
  m.tids.flatMap m.threadEntries

def ranked (entries : List HotpcEntry) : List HotpcRow := entries.map fun e => (e, e.rank)

/-- A manifest as the monitor writes it: hotspots of the main binary only, listed by thread. -/
structure ManifestSource.Valid (m : ManifestSource) : Prop where
  tids : m.tids.Nodup
  tid : ∀ tid ∈ m.tids, ∀ s ∈ m.collect tid, s.tid = tid
  path : ∀ tid ∈ m.tids, ∀ s ∈ m.collect tid, s.path = m.mainBinaryPath
  candidateMetric : ∀ tid ∈ m.tids, ∀ s ∈ m.collect tid, CleanText s.candidateMetric
  mainBinaryPath : CleanText m.mainBinaryPath

theorem numeral_eq_formatInt (n : ℕ) : numeral false n = formatInt 10 n := by
  unfold formatInt
  rw [if_neg (by omega), Int.natAbs_natCast]
  rfl

theorem numeral_hex_eq_formatInt (n : ℕ) : numeral true n = '0' :: 'x' :: formatInt 16 n := by
  unfold formatInt
  rw [if_neg (by omega), Int.natAbs_natCast]
  rfl

/-- The monitor prints a summary as the resolver prints its entry. -/
theorem HotspotSummary.fields_eq (rank : ℕ) (s : HotspotSummary) :
    s.fields rank = (s.toEntry rank).fields rank := by
  unfold HotspotSummary.fields
  simp only [numeral_eq_formatInt, numeral_hex_eq_formatInt]
  rfl

section Source

variable {m : ManifestSource}

theorem writeHotspotManifest_eq (m : ManifestSource) :
    writeHotspotManifest m = unlines (manifestLines m.header (ranked m.entries)) := by
  have hrows : m.hotspotLines = (ranked m.entries).map rowLine := by
    unfold ManifestSource.hotspotLines ranked ManifestSource.entries ManifestSource.threadEntries
    rw [List.map_map, List.map_flatMap]
    congr 1
    funext tid
    rw [map_mapIdx]
    apply congrFun
    apply congrArg
    funext i s
    rw [HotspotSummary.fields_eq]
    rfl
  unfold writeHotspotManifest manifestLines
  rw [hrows]

theorem mem_entries {e : HotpcEntry} (he : e ∈ m.entries) :
    ∃ tid ∈ m.tids, ∃ s ∈ m.collect tid, ∃ rank, e = s.toEntry rank := by
  obtain ⟨tid, htid, he⟩ := List.mem_flatMap.mp he
  obtain ⟨i, hi, rfl⟩ := List.mem_mapIdx.mp he
  exact ⟨tid, htid, _, List.getElem_mem hi, _, rfl⟩

theorem ManifestSource.Valid.printable (hm : m.Valid) {e : HotpcEntry} (he : e ∈ m.entries) :
    e.Printable := by
  obtain ⟨tid, htid, s, hs, rank, rfl⟩ := mem_entries he
  refine ⟨?_, hm.candidateMetric tid htid s hs, ⟨_, rfl⟩, ⟨_, rfl⟩, ⟨_, rfl⟩⟩
  change CleanText s.path
  rw [hm.path tid htid s hs]
  exact hm.mainBinaryPath

theorem ManifestSource.Valid.printable_ranked (hm : m.Valid) {entries : List HotpcEntry}
    (h : ∀ e ∈ entries, e ∈ m.entries) : ∀ r ∈ ranked entries, r.1.Printable := by
  intro r hr
  obtain ⟨e, he, rfl⟩ := List.mem_map.mp hr
  exact hm.printable (h e he)

theorem ManifestSource.Valid.path_eq (hm : m.Valid) {e : HotpcEntry} (he : e ∈ m.entries) :
    e.path = m.mainBinaryPath := by
  obtain ⟨tid, htid, s, hs, rank, rfl⟩ := mem_entries he
  exact hm.path tid htid s hs

/-- In the file the ranks of a thread increase. -/
theorem ManifestSource.Valid.ranks (hm : m.Valid) :
    m.entries.Pairwise fun a b => a.tid = b.tid → a.rank < b.rank := by
  unfold ManifestSource.entries
  rw [List.pairwise_flatMap]
  constructor
  · intro tid _
    unfold ManifestSource.threadEntries
    rw [List.pairwise_iff_getElem]
    intro i j hi hj hij _
    rw [List.getElem_mapIdx, List.getElem_mapIdx]
    change ((i : ℤ) + 1) < j + 1
    omega
  · apply hm.tids.imp_of_mem
    intro tid tid' htid htid' hne a ha b hb heq
    obtain ⟨i, hi, rfl⟩ := List.mem_mapIdx.mp ha
    obtain ⟨j, hj, rfl⟩ := List.mem_mapIdx.mp hb
    have h1 : ((m.collect tid)[i]).tid = tid := hm.tid tid htid _ (List.getElem_mem hi)
    have h2 : ((m.collect tid')[j]).tid = tid' := hm.tid tid' htid' _ (List.getElem_mem hj)
    exact absurd (h1.symm.trans (heq.trans h2)) hne

theorem headerLine_clean {p : Text × Text} (hkey : '\n' ∉ p.1 ∧ '\r' ∉ p.1)
    (hvalue : '\n' ∉ p.2 ∧ '\r' ∉ p.2) : '\n' ∉ headerLine p ∧ '\r' ∉ headerLine p := by
  unfold headerLine
  rw [List.mem_append, List.mem_cons, List.mem_append, List.mem_cons]
  simp [hkey, hvalue]

theorem cleanText_hotspotFieldNames : CleanText hotspotFieldNames := by
  unfold hotspotFieldNames
  rw [String.toList_append, String.toList_append]
  refine ⟨?_, ?_, ?_⟩
  all_goals
    simp only [List.mem_append, not_or]
    simp

def headerKeys : List Text :=
  ["hotspot_top_k".toList, "hotspot_identity".toList, "hotspot_scope".toList,
    "hotspot_main_binary".toList, "hotspot_kind_hint".toList, "hotspot_selection_policy".toList,
    "hotspot_fields".toList, "hotspot_count".toList, "hotspot_unmapped_pc_samples".toList]

theorem ManifestSource.Valid.plainHeader (hm : m.Valid) : PlainHeader m.header := by
  have hnumeral : ∀ n, CleanText (numeral false n) := by
    intro n
    rw [numeral_eq_formatInt]
    exact cleanText_formatInt n
  have hvalues : ∀ p ∈ m.header, CleanText p.2 := by
    unfold ManifestSource.header
    simp only [List.forall_mem_cons, hnumeral, hm.mainBinaryPath, true_and, List.not_mem_nil,
      false_implies, implies_true, and_true]
    refine ⟨⟨?_, ?_, ?_⟩, ⟨?_, ?_, ?_⟩, ⟨?_, ?_, ?_⟩, ⟨?_, ?_, ?_⟩, cleanText_hotspotFieldNames⟩
    all_goals simp
  have hkeys : ∀ k ∈ headerKeys, '=' ∉ k ∧ k ≠ "hotspot".toList ∧ '\n' ∉ k ∧ '\r' ∉ k := by
    simp [headerKeys]
  have hnd : headerKeys.Nodup := by simp [headerKeys]
  refine ⟨fun p hp => ?_, hnd⟩
  obtain ⟨h1, h2, h3⟩ := hkeys p.1 (List.mem_map_of_mem (f := Prod.fst) hp)
  exact ⟨h1, h2, headerLine_clean h3 ⟨(hvalues p hp).newline, (hvalues p hp).cr⟩⟩

end Source

/-! ## The resolver's manifest -/

def PlainDict (d : HotpcMetadata) : Prop := ∀ k v, d.lookup k = some v → PlainPair (k, v)

section Dict

variable {d : HotpcMetadata}

theorem PlainDict.insert (hd : PlainDict d) {k v : Text} (hp : PlainPair (k, v)) :
    PlainDict (d.insert k v) := by
  intro k' v' hlook
  by_cases hk : k' = k
  · subst hk
    rw [AList.lookup_insert] at hlook
    cases hlook
    exact hp
  · rw [AList.lookup_insert_ne hk] at hlook
    exact hd k' v' hlook

theorem PlainDict.foldl (hd : PlainDict d) {header : List (Text × Text)}
    (h : ∀ p ∈ header, PlainPair p) :
    PlainDict (header.foldl (fun d p => d.insert p.1 p.2) d) := by
  induction header generalizing d with
  | nil => exact hd
  | cons p header ih =>
      rw [List.forall_mem_cons] at h
      exact ih (hd.insert h.1) h.2

theorem PlainDict.sortedHeader (hd : PlainDict d) : PlainHeader (sortedHeader d) := by
  constructor
  · intro p hp
    obtain ⟨k, hk, rfl⟩ := List.mem_map.mp hp
    rw [List.mem_mergeSort, ← AList.mem_keys, ← AList.lookup_isSome] at hk
    obtain ⟨v, hv⟩ := Option.isSome_iff_exists.mp hk
    rw [hv]
    exact hd k v hv
  · unfold RdSpeTool.sortedHeader
    rw [List.map_map]
    change (List.map id _).Nodup
    rw [List.map_id]
    exact (List.mergeSort_perm _ _).nodup_iff.mpr d.keys_nodup

theorem mem_sortedHeader {k v : Text} (h : d.lookup k = some v) : (k, v) ∈ sortedHeader d := by
  have hk : k ∈ d.keys.mergeSort (· ≤ ·) := by
    rw [List.mem_mergeSort, ← AList.mem_keys, ← AList.lookup_isSome, h]
    rfl
  refine List.mem_map.mpr ⟨k, hk, ?_⟩
  rw [h]
  rfl

theorem PlainDict.filteredMetadata (hd : PlainDict d) {input : Text}
    (hinput : '\n' ∉ input ∧ '\r' ∉ input) (removed kept : ℕ) :
    PlainDict (filteredMetadata input removed kept d) := by
  have hpair : ∀ k ∈ ["hotspot_filter".toList, "hotspot_filter_input".toList,
      "hotspot_filter_removed_count".toList, "hotspot_count".toList, "hotspot_fields".toList],
      ∀ v, '\n' ∉ v ∧ '\r' ∉ v → PlainPair (k, v) := by
    intro k hk v hv
    have hkeys : ∀ k ∈ ["hotspot_filter".toList, "hotspot_filter_input".toList,
        "hotspot_filter_removed_count".toList, "hotspot_count".toList, "hotspot_fields".toList],
        '=' ∉ k ∧ k ≠ "hotspot".toList ∧ '\n' ∉ k ∧ '\r' ∉ k := by
      simp
    obtain ⟨h1, h2, h3⟩ := hkeys k hk
    exact ⟨h1, h2, headerLine_clean h3 hv⟩
  have hcount : ∀ i, '\n' ∉ formatInt 10 i ∧ '\r' ∉ formatInt 10 i :=
    fun i => ⟨(cleanText_formatInt i).newline, (cleanText_formatInt i).cr⟩
  simp only [List.forall_mem_cons, List.not_mem_nil, false_implies, implies_true,
    and_true] at hpair
  obtain ⟨h1, h2, h3, h4, h5⟩ := hpair
  unfold RdSpeTool.filteredMetadata
  apply PlainDict.insert _ (h5 _ ⟨cleanText_hotspotFieldNames.newline,
    cleanText_hotspotFieldNames.cr⟩)
  apply PlainDict.insert _ (h4 _ (hcount _))
  apply PlainDict.insert _ (h3 _ (hcount _))
  apply PlainDict.insert _ (h2 _ hinput)
  exact hd.insert (h1 _ (by simp))

theorem lookup_filteredMetadata (input : Text) (removed kept : ℕ) :
    (filteredMetadata input removed kept d).lookup "hotspot_main_binary".toList =
      d.lookup "hotspot_main_binary".toList := by
  unfold filteredMetadata
  rw [AList.lookup_insert_ne, AList.lookup_insert_ne, AList.lookup_insert_ne,
    AList.lookup_insert_ne, AList.lookup_insert_ne]
  all_goals simp

theorem lookup_header (m : ManifestSource) :
    (m.header.foldl (fun d p => d.insert p.1 p.2) (∅ : HotpcMetadata)).lookup
      "hotspot_main_binary".toList = some m.mainBinaryPath := by
  unfold ManifestSource.header
  simp only [List.foldl_cons, List.foldl_nil]
  rw [AList.lookup_insert_ne, AList.lookup_insert_ne, AList.lookup_insert_ne,
    AList.lookup_insert_ne, AList.lookup_insert_ne, AList.lookup_insert]
  all_goals simp

end Dict

section Filtered

variable {entries : List HotpcEntry}

def reranked (l : List HotpcEntry) : List HotpcRow := l.mapIdx fun i e => (e, (i : ℤ) + 1)

def threadsOf (entries : List HotpcEntry) : List ℤ :=
  (entries.map HotpcEntry.tid).dedup.mergeSort (· ≤ ·)

def filteredRows (entries : List HotpcEntry) : List HotpcRow :=
  (threadsOf entries).flatMap fun tid => reranked
    ((entries.filter (·.tid = tid)).mergeSort fun a b => a.sortKey ≤ b.sortKey)

theorem writeFilteredHotpc_eq (input : Text) (metadata : HotpcMetadata) (entries : List HotpcEntry)
    (resolved : List HotpcKey) :
    writeFilteredHotpc input metadata entries resolved =
      unlines (manifestLines (sortedHeader (filteredMetadata input
        (entries.length - (keptEntries resolved entries).length)
        (keptEntries resolved entries).length metadata))
        (filteredRows (keptEntries resolved entries))) := by
  have hrows : ∀ l, (filteredRows l).map rowLine = (threadsOf l).flatMap (rankedLines l) := by
    intro l
    unfold filteredRows reranked rankedLines
    rw [List.map_flatMap]
    simp only [map_mapIdx]
    rfl
  unfold writeFilteredHotpc manifestLines
  rw [hrows]
  rfl

theorem nodup_threadsOf (entries : List HotpcEntry) : (threadsOf entries).Nodup :=
  (List.mergeSort_perm _ _).nodup_iff.mpr (List.nodup_dedup _)

theorem mem_threadsOf {tid : ℤ} : tid ∈ threadsOf entries ↔ ∃ e ∈ entries, e.tid = tid := by
  unfold threadsOf
  rw [List.mem_mergeSort, List.mem_dedup, List.mem_map]

theorem sortKey_le {a b : HotpcEntry} (h : a.rank < b.rank) : a.sortKey ≤ b.sortKey := by
  unfold HotpcEntry.sortKey
  rw [Prod.Lex.toLex_le_toLex]
  exact .inl h

/-- Sorting changes nothing where the ranks of a thread increase. -/
theorem filteredRows_eq (h : entries.Pairwise fun a b => a.tid = b.tid → a.rank < b.rank) :
    filteredRows entries =
      (threadsOf entries).flatMap fun tid => reranked (entries.filter (·.tid = tid)) := by
  unfold filteredRows
  congr 1
  funext tid
  rw [List.mergeSort_of_pairwise]
  have hsub : (entries.filter (·.tid = tid)).Pairwise fun a b => a.tid = b.tid → a.rank < b.rank :=
    h.filter _
  apply hsub.imp_of_mem
  intro a b ha hb hlt
  have hta := of_decide_eq_true (List.mem_filter.mp ha).2
  have htb := of_decide_eq_true (List.mem_filter.mp hb).2
  exact decide_eq_true (sortKey_le (hlt (hta.trans htb.symm)))

theorem mem_filteredRows {r : HotpcRow} (hr : r ∈ filteredRows entries) : r.1 ∈ entries := by
  obtain ⟨tid, -, hr⟩ := List.mem_flatMap.mp hr
  obtain ⟨i, hi, rfl⟩ := List.mem_mapIdx.mp hr
  have hmem := List.getElem_mem hi
  rw [List.mem_mergeSort] at hmem
  exact List.mem_of_mem_filter hmem

/-- Every entry has a row. -/
theorem filteredRows_perm (h : entries.Pairwise fun a b => a.tid = b.tid → a.rank < b.rank) :
    ((filteredRows entries).map Prod.fst).Perm entries := by
  have hfst : ∀ l, (reranked l).map Prod.fst = l := by
    intro l
    unfold reranked
    rw [map_mapIdx]
    exact List.mapIdx_eq_iff.mpr fun i => by simp
  have hall : entries.filter (·.tid ∈ threadsOf entries) = entries := by
    rw [List.filter_eq_self]
    intro e he
    exact decide_eq_true (mem_threadsOf.mpr ⟨e, he, rfl⟩)
  have hgroups := OrderedGroups.flatMap_groupOf_perm HotpcEntry.tid entries
    (nodup_threadsOf entries)
  rw [hall] at hgroups
  rw [filteredRows_eq h, List.map_flatMap]
  simp only [hfst]
  exact hgroups

end Filtered

/-! ## The two selections -/

/-- An entry without its latency, the one field that is not exact. -/
def HotpcEntry.exact (e : HotpcEntry) : HotpcEntry := { e with avgMemLatency := .finite 0 }

def HotpcEntry.withRank (rank : ℤ) (e : HotpcEntry) : HotpcEntry := { e with rank := rank }

def KeptTogether (resolved : List HotpcKey) (entries : List HotpcEntry) : Prop :=
  ∀ e ∈ entries, ∀ e' ∈ entries, e.path = e'.path → e.pcOffset = e'.pcOffset →
    (e.key ∈ resolved ↔ e'.key ∈ resolved)

def keptPcs (resolved : List HotpcKey) (entries : List HotpcEntry) : List U64 :=
  (keptEntries resolved entries).map fun e => e.toManifest.pcOffset

def restrictManifest (pcs : List U64) (text : Text) : Text :=
  unlines ((getlines '\n' [] text).filter fun line =>
    !isHotspotLine line || (manifestEntry (hotspotFields line)).pcOffset ∈ pcs)

def readManifest (env : LoadEnv) (text : Text) : Except String ManifestState :=
  (getlines '\n' [] text).foldlM (readManifestLine env) ⟨[], ∅⟩

/-- Two manifests from which the second stage makes the same choice. -/
structure SameSelection (env : LoadEnv) (text text' : Text) : Prop where
  read : ∃ s s', readManifest env text = .ok s ∧ readManifest env text' = .ok s' ∧
    s.manifestMainBinary = s'.manifestMainBinary ∧
    (∀ o, s.aggregated.lookup o = s'.aggregated.lookup o) ∧
    ∀ l l', l.Perm (s.aggregated.entries.map fun e => (e.1, e.2)) →
      l'.Perm (s'.aggregated.entries.map fun e => (e.1, e.2)) →
      sort candidateBefore l = sort candidateBefore l'
  load : ∀ iterate iterate', (∀ l, (iterate l).Perm l) → (∀ l, (iterate' l).Perm l) →
    loadTargets env iterate text = loadTargets env iterate' text'

section Selection

variable {env : LoadEnv} {header header' : List (Text × Text)} {rows rows' : List HotpcRow}
  {path : Text}

theorem lookup_entries_perm {entries entries' : List ManifestEntry} (h : entries.Perm entries')
    (o : U64) : (entries.foldl Aggregated.addEntry ∅).lookup o =
      (entries'.foldl Aggregated.addEntry ∅).lookup o := by
  have hsum := aggregate_perm h o
  have hmem : o ∈ entries.map ManifestEntry.pcOffset ↔ o ∈ entries'.map ManifestEntry.pcOffset :=
    (h.map _).mem_iff
  unfold aggregate at hsum
  rw [lookup_foldl_addEntry, lookup_foldl_addEntry, AList.lookup_empty, Option.getD_none, hsum]
  simp only [hmem]

/-- The rows of a manifest decide the selection, in whatever order they come. -/
theorem sameSelection_of_perm (hh : PlainHeader header) (hh' : PlainHeader header')
    (hrows : ∀ r ∈ rows, r.1.Printable) (hrows' : ∀ r ∈ rows', r.1.Printable)
    (hmain : ("hotspot_main_binary".toList, path) ∈ header)
    (hmain' : ("hotspot_main_binary".toList, path) ∈ header')
    (hpath : normalizeFilesystemPath env.realpath path = env.mainBinaryPath)
    (hp : ∀ r ∈ rows, r.1.path = path) (hp' : ∀ r ∈ rows', r.1.path = path)
    (hperm : (rows.map fun r => r.1.toManifest).Perm (rows'.map fun r => r.1.toManifest)) :
    SameSelection env (unlines (manifestLines header rows))
      (unlines (manifestLines header' rows')) := by
  -- what both manifests have in common with any other one of this kind
  have hread : ∀ {header rows}, PlainHeader header → (∀ r ∈ rows, HotpcEntry.Printable r.1) →
      ("hotspot_main_binary".toList, path) ∈ header → (∀ r ∈ rows, r.1.path = path) →
      Readable env (manifestLines header rows) ∧
        mainBinaryAfter env [] (manifestLines header rows) = env.mainBinaryPath := by
    intro header rows hh hrows hmain hp
    have hbin : mainBinaryAfter env [] (manifestLines header rows) = env.mainBinaryPath := by
      rw [mainBinaryAfter_filter, filter_not_hotspot_manifest hh,
        (mainBinaryAfter_headerLines env hh.pairs hh.nodup []).1 path hmain, hpath]
    refine ⟨⟨goodLine_manifest hh hrows fun r hr => ?_, .inr hbin⟩, hbin⟩
    rw [hp r hr, hpath]
  obtain ⟨hreadable, hbin⟩ := hread hh hrows hmain hp
  obtain ⟨hreadable', hbin'⟩ := hread hh' hrows' hmain' hp'
  have hentries := manifestEntries_manifest hh hrows
  have hentries' := manifestEntries_manifest hh' hrows'
  constructor
  · unfold readManifest
    rw [getlines_manifest hh hrows, getlines_manifest hh' hrows']
    obtain ⟨s, hs, -, hm, hagg⟩ | ⟨e, -, hbad⟩ :=
      @foldlM_readManifestLine env ⟨[], ∅⟩ (manifestLines header rows)
    · obtain ⟨s', hs', -, hm', hagg'⟩ | ⟨e, -, hbad⟩ :=
        @foldlM_readManifestLine env ⟨[], ∅⟩ (manifestLines header' rows')
      · rw [hentries] at hagg
        rw [hentries'] at hagg'
        refine ⟨s, s', hs, hs', ?_, ?_, ?_⟩
        · rw [hm, hm', hbin, hbin']
        · intro o
          rw [hagg, hagg']
          exact lookup_entries_perm hperm o
        · intro l l' hl hl'
          rw [hagg] at hl
          rw [hagg'] at hl'
          rw [sort_eq_candidateOrder (hl.trans (entries_perm_candidates _)),
            sort_eq_candidateOrder ((hl'.trans (entries_perm_candidates _)).trans
              (candidates_perm hperm.symm))]
      · exact absurd hreadable'.1 hbad
    · exact absurd hreadable.1 hbad
  · intro iterate iterate' hiter hiter'
    obtain ⟨-, l, hl, hload⟩ | ⟨hbad, -⟩ :=
      @loadTargets_eq env iterate (unlines (manifestLines header rows)) hiter
    · obtain ⟨-, l', hl', hload'⟩ | ⟨hbad, -⟩ :=
        @loadTargets_eq env iterate' (unlines (manifestLines header' rows')) hiter'
      · rw [getlines_manifest hh hrows, hentries] at hl
        rw [getlines_manifest hh' hrows', hentries'] at hl'
        rw [hload, hload', chooseTargets_perm hl,
          chooseTargets_perm (hl'.trans (candidates_perm hperm.symm))]
      · rw [getlines_manifest hh' hrows'] at hbad
        exact absurd hreadable' hbad
    · rw [getlines_manifest hh hrows] at hbad
      exact absurd hreadable hbad

end Selection

section Commutes

variable {m : ManifestSource} {resolved : List HotpcKey}

def HotpcEntry.reread (nearest : ℚ → Double) (e : HotpcEntry) : HotpcEntry :=
  { e with avgMemLatency := rereadLatency nearest e.avgMemLatency }

theorem keptEntries_reread (nearest : ℚ → Double) (resolved : List HotpcKey)
    (entries : List HotpcEntry) :
    keptEntries resolved (entries.map (HotpcEntry.reread nearest)) =
      (keptEntries resolved entries).map (HotpcEntry.reread nearest) := by
  unfold keptEntries
  rw [List.filter_map]
  rfl

/-- The offset of a kept entry is the offset of kept entries only. -/
theorem mem_keptPcs_iff (hm : m.Valid) (hkeep : KeptTogether resolved m.entries) {e : HotpcEntry}
    (he : e ∈ m.entries) :
    e.toManifest.pcOffset ∈ keptPcs resolved m.entries ↔ e.key ∈ resolved := by
  unfold keptPcs keptEntries
  rw [List.mem_map]
  constructor
  · rintro ⟨e', he', hpc⟩
    obtain ⟨he', hkey⟩ := List.mem_filter.mp he'
    obtain ⟨v, hv⟩ := (hm.printable he).pcOffset
    obtain ⟨v', hv'⟩ := (hm.printable he').pcOffset
    have hvv : v' = v := by
      change BitVec.ofInt 64 e'.pcOffset = BitVec.ofInt 64 e.pcOffset at hpc
      rw [hv, hv', BitVec.ofInt_natCast, BitVec.ofInt_natCast] at hpc
      simpa using hpc
    have hpath : e.path = e'.path := by rw [hm.path_eq he, hm.path_eq he']
    have hoffset : e.pcOffset = e'.pcOffset := by rw [hv, hv', hvv]
    exact (hkeep e he e' he' hpath hoffset).mpr (of_decide_eq_true hkey)
  · intro hkey
    exact ⟨e, List.mem_filter.mpr ⟨he, decide_eq_true hkey⟩, rfl⟩

theorem restrictManifest_eq (hm : m.Valid) (pcs : List U64) :
    restrictManifest pcs (writeHotspotManifest m) = unlines (manifestLines m.header
      (ranked (m.entries.filter fun e => e.toManifest.pcOffset ∈ pcs))) := by
  have hrows := hm.printable_ranked fun e (he : e ∈ m.entries) => he
  have hheader : (m.header.map headerLine).filter (fun line =>
      !isHotspotLine line || (manifestEntry (hotspotFields line)).pcOffset ∈ pcs) =
      m.header.map headerLine := by
    rw [List.filter_eq_self]
    intro line hline
    obtain ⟨p, hp, rfl⟩ := List.mem_map.mp hline
    rw [isHotspotLine_headerLine (hm.plainHeader.pairs p hp)]
    rfl
  have hfilter : m.entries.filter ((fun line =>
      !isHotspotLine line || decide ((manifestEntry (hotspotFields line)).pcOffset ∈ pcs)) ∘
        fun e => rowLine (e, e.rank)) = m.entries.filter (·.toManifest.pcOffset ∈ pcs) := by
    apply List.filter_congr
    intro e he
    rw [Function.comp_apply, isHotspotLine_rowLine,
      hotspotFields_rowLine (r := (e, e.rank)) (hm.printable he),
      manifestEntry_fields (hm.printable he), Bool.not_true, Bool.false_or]
  have hlines : ∀ l, (ranked l).map rowLine = l.map fun e => rowLine (e, e.rank) := by
    intro l
    rw [ranked, List.map_map]
    rfl
  unfold restrictManifest
  rw [writeHotspotManifest_eq, getlines_manifest hm.plainHeader hrows, manifestLines, manifestLines,
    hlines, hlines, List.filter_append, hheader, List.filter_map, hfilter]

/-- The entries of one thread in the filtered manifest. -/
theorem filter_filteredRows (nearest : ℚ → Double) {entries : List HotpcEntry}
    (h : entries.Pairwise fun a b => a.tid = b.tid → a.rank < b.rank) (tid : ℤ) :
    ((filteredRows entries).map (HotpcRow.entry nearest)).filter (·.tid = tid) =
      (entries.filter (·.tid = tid)).mapIdx fun i e =>
        (e.reread nearest).withRank (i + 1) := by
  have hgroup : ∀ tid, ((reranked (entries.filter (·.tid = tid))).map (HotpcRow.entry nearest)) =
      (entries.filter (·.tid = tid)).mapIdx fun i e =>
        (e.reread nearest).withRank (i + 1) := by
    intro tid
    unfold reranked
    rw [map_mapIdx]
    rfl
  rw [filteredRows_eq h, List.map_flatMap, filter_flatMap_group HotpcEntry.tid
    (nodup_threadsOf entries)]
  · split_ifs with hmem
    · exact hgroup tid
    · have hnil : entries.filter (·.tid = tid) = [] := by
        rw [List.filter_eq_nil_iff]
        intro e he htid
        exact hmem (mem_threadsOf.mpr ⟨e, he, of_decide_eq_true htid⟩)
      rw [hnil]
      rfl
  · intro t _ a ha
    rw [hgroup] at ha
    obtain ⟨i, hi, rfl⟩ := List.mem_mapIdx.mp ha
    exact of_decide_eq_true (List.mem_filter.mp (List.getElem_mem hi)).2

def ManifestSource.metadata (m : ManifestSource) : HotpcMetadata :=
  m.header.foldl (fun d p => d.insert p.1 p.2) ∅

def keptRead (nearest : ℚ → Double) (resolved : List HotpcKey) (m : ManifestSource) :
    List HotpcEntry :=
  (keptEntries resolved m.entries).map (HotpcEntry.reread nearest)

theorem parseHotpc_source (hm : m.Valid) (nearest : ℚ → Double) :
    parseHotpc nearest (writeHotspotManifest m) =
      .ok (m.metadata, m.entries.map (HotpcEntry.reread nearest)) := by
  rw [writeHotspotManifest_eq, parseHotpc_manifest hm.plainHeader (hm.printable_ranked fun _ => id),
    ranked, List.map_map]
  rfl

theorem ManifestSource.Valid.filteredHeader (hm : m.Valid) {input : Text}
    (hinput : '\n' ∉ input ∧ '\r' ∉ input) (removed kept : ℕ) :
    PlainHeader (sortedHeader (filteredMetadata input removed kept m.metadata)) := by
  have hempty : PlainDict ∅ := by
    intro k v hv
    rw [AList.lookup_empty] at hv
    cases hv
  exact ((hempty.foldl hm.plainHeader.pairs).filteredMetadata hinput removed kept).sortedHeader

theorem ManifestSource.Valid.filteredRow (hm : m.Valid) {nearest : ℚ → Double} {r : HotpcRow}
    (hr : r ∈ filteredRows (keptRead nearest resolved m)) :
    r.1.Printable ∧ r.1.path = m.mainBinaryPath := by
  obtain ⟨e, he, her⟩ := List.mem_map.mp (mem_filteredRows hr)
  have he' : e ∈ m.entries := List.mem_of_mem_filter he
  have hprint := hm.printable he'
  rw [← her]
  exact ⟨⟨hprint.path, hprint.candidateMetric, hprint.pcOffset, hprint.sampleCount,
    hprint.candidateScore⟩, (hm.path_eq he' : e.path = m.mainBinaryPath)⟩

theorem ManifestSource.Valid.keptRanks (hm : m.Valid) (nearest : ℚ → Double)
    (resolved : List HotpcKey) : (keptRead nearest resolved m).Pairwise
      fun a b => a.tid = b.tid → a.rank < b.rank := by
  unfold keptRead
  rw [List.pairwise_map]
  exact hm.ranks.filter _

/-- What is left of a thread in the filtered manifest. -/
theorem exact_filteredRows (hm : m.Valid) (nearest : ℚ → Double) (tid : ℤ) :
    (((filteredRows (keptRead nearest resolved m)).map (HotpcRow.entry nearest)).filter
        (·.tid = tid)).map HotpcEntry.exact =
      ((keptEntries resolved m.entries).filter (·.tid = tid)).mapIdx fun i e =>
        e.exact.withRank (i + 1) := by
  rw [filter_filteredRows nearest (hm.keptRanks nearest resolved), map_mapIdx, keptRead,
    List.filter_map, mapIdx_map]
  rfl

/-- The rows of the filtered manifest are those of the kept PCs. -/
theorem filteredRows_perm_kept (hm : m.Valid) (hkeep : KeptTogether resolved m.entries)
    (nearest : ℚ → Double) :
    ((filteredRows (keptRead nearest resolved m)).map fun r => r.1.toManifest).Perm
      ((ranked (m.entries.filter fun e =>
        e.toManifest.pcOffset ∈ keptPcs resolved m.entries)).map fun r => r.1.toManifest) := by
  have hleft := (filteredRows_perm (hm.keptRanks nearest resolved)).map HotpcEntry.toManifest
  have hread : (keptRead nearest resolved m).map HotpcEntry.toManifest =
      (keptEntries resolved m.entries).map HotpcEntry.toManifest := by
    rw [keptRead, List.map_map]
    rfl
  have hsame : m.entries.filter (fun e => e.toManifest.pcOffset ∈ keptPcs resolved m.entries) =
      keptEntries resolved m.entries := by
    apply List.filter_congr
    intro e he
    rw [decide_eq_decide]
    exact mem_keptPcs_iff hm hkeep he
  rw [List.map_map, hread] at hleft
  rw [hsame, ranked, List.map_map]
  exact hleft

/-- Filtering a manifest of the monitor keeps all exact fields of the kept entries but their rank,
and the second stage chooses from it as from the manifest without the dropped PCs. -/
theorem filtered_manifest_same_selection (m : ManifestSource) (hm : m.Valid)
    (nearest : ℚ → Double) (input : Text) (hinput : '\n' ∉ input ∧ '\r' ∉ input)
    (resolved : List HotpcKey) (hkeep : KeptTogether resolved m.entries) :
    ∃ metadata entries metadata' entries',
      parseHotpc nearest (writeHotspotManifest m) = .ok (metadata, entries) ∧
      entries.map HotpcEntry.exact = m.entries.map HotpcEntry.exact ∧
      parseHotpc nearest (writeFilteredHotpc input metadata entries resolved) =
        .ok (metadata', entries') ∧
      (∀ tid, (entries'.filter (·.tid = tid)).map HotpcEntry.exact =
        ((keptEntries resolved m.entries).filter (·.tid = tid)).mapIdx fun i e =>
          e.exact.withRank (i + 1)) ∧
      ∀ env, normalizeFilesystemPath env.realpath m.mainBinaryPath = env.mainBinaryPath →
        SameSelection env (writeFilteredHotpc input metadata entries resolved)
          (restrictManifest (keptPcs resolved m.entries) (writeHotspotManifest m)) := by
  have hkept : keptEntries resolved (m.entries.map (HotpcEntry.reread nearest)) =
      keptRead nearest resolved m := keptEntries_reread nearest resolved m.entries
  have hfiltered := writeFilteredHotpc_eq input m.metadata
    (m.entries.map (HotpcEntry.reread nearest)) resolved
  rw [hkept] at hfiltered
  have hparse := (congrArg (parseHotpc nearest) hfiltered).trans (parseHotpc_manifest
    (hm.filteredHeader hinput _ _) (fun r hr => (hm.filteredRow hr).1) nearest)
  refine ⟨_, _, _, _, parseHotpc_source hm nearest, ?_, hparse, exact_filteredRows hm nearest, ?_⟩
  · rw [List.map_map]
    rfl
  · intro env henv
    rw [hfiltered, restrictManifest_eq hm]
    apply sameSelection_of_perm (hm.filteredHeader hinput _ _) hm.plainHeader
      (fun r hr => (hm.filteredRow hr).1)
    · exact hm.printable_ranked fun e he => List.mem_of_mem_filter he
    · apply mem_sortedHeader
      rw [lookup_filteredMetadata]
      exact lookup_header m
    · unfold ManifestSource.header
      simp
    · exact henv
    · exact fun r hr => (hm.filteredRow hr).2
    · intro r hr
      obtain ⟨e, he, rfl⟩ := List.mem_map.mp hr
      exact hm.path_eq (List.mem_of_mem_filter he)
    · exact filteredRows_perm_kept hm hkeep nearest

def plainSummary (tid : ℤ) (moduleId : U32) (pcOffset : U64) : HotspotSummary where
  tid := tid
  moduleId := moduleId
  pcOffset := pcOffset
  sampleCount := 2
  paretoFront := 1
  candidateScore := 24
  candidateMetric := "lat_exec_sum".toList
  avgMemLatency := 12
  latTotalSum := 30
  latIssueSum := 4
  latXlatSum := 2
  latExecSum := 24
  l1dRefillCount := 1
  llcMissCount := 0
  tlbWalkCount := 0
  remoteAccessCount := 0
  path := "/a".toList

def twoThreads : ManifestSource where
  topK := 8
  mainBinaryPath := "/a".toList
  unmappedSamples := 3
  tids := [9, 7]
  collect tid :=
    if tid = 9 then [plainSummary 9 0 0x40, plainSummary 9 0 0x80, plainSummary 9 1 0x80]
    else [plainSummary 7 0 0x80]

def sharedKeys : List HotpcKey := [⟨"/a".toList, 0, 0x80⟩, ⟨"/a".toList, 1, 0x80⟩]

theorem filtered_manifest_same_selection_shared :
    ∃ metadata entries,
      parseHotpc .finite (writeHotspotManifest twoThreads) = .ok (metadata, entries) ∧
      SameSelection crowdedEnv (writeFilteredHotpc "/r/x.hotpc".toList metadata entries sharedKeys)
        (restrictManifest (keptPcs sharedKeys twoThreads.entries)
          (writeHotspotManifest twoThreads)) := by
  have hpath : CleanText "/a".toList := ⟨by decide, by decide, by decide⟩
  have hmetric : CleanText "lat_exec_sum".toList := ⟨by decide, by decide, by decide⟩
  have hall : ∀ tid ∈ twoThreads.tids, ∀ s ∈ twoThreads.collect tid,
      s.tid = tid ∧ s.path = "/a".toList ∧ s.candidateMetric = "lat_exec_sum".toList := by
    decide +kernel
  have hvalid : twoThreads.Valid := by
    refine ⟨by decide, fun tid ht s hs => (hall tid ht s hs).1,
      fun tid ht s hs => (hall tid ht s hs).2.1, fun tid ht s hs => ?_, hpath⟩
    rw [(hall tid ht s hs).2.2]
    exact hmetric
  have hkeep : KeptTogether sharedKeys twoThreads.entries := by
    unfold KeptTogether
    decide +kernel
  obtain ⟨metadata, entries, -, -, hparse, -, -, -, hsame⟩ :=
    filtered_manifest_same_selection twoThreads hvalid .finite "/r/x.hotpc".toList
      (by decide) sharedKeys hkeep
  have hmain : normalizeFilesystemPath crowdedEnv.realpath twoThreads.mainBinaryPath =
      crowdedEnv.mainBinaryPath := by
    decide +kernel
  exact ⟨metadata, entries, hparse, hsame crowdedEnv hmain⟩

end Commutes

end RdSpeTool
