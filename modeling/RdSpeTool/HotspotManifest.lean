import Mathlib
import RdSpeTool.CandidatePartition
import RdSpeTool.GeneralFormat
import RdSpeTool.HotspotSelection

/-!
# Hotspot manifests

`write_hotspot_manifest` writes the selected hotspots as text. The resolver parses the text, keeps
the entries whose PC it could attribute to a source statement, and writes a manifest of its own.
A text is taken as its characters; the monitor prints a `double` by its exact value.
-/

namespace RdSpeTool

open CText PyText GeneralFormat

/-! ## Writing -/

structure ManifestSource where
  topK : ℕ
  mainBinaryPath : Text
  unmappedSamples : U64
  tids : List ℤ
  collect : ℤ → List HotspotSummary

def hotspotFieldNames : Text :=
  ("tid,rank,sample_count,module_id,pc_offset,path,pareto_front,candidate_score," ++
    "candidate_metric,avg_mem_latency,lat_total_sum,lat_issue_sum,lat_xlat_sum," ++
    "lat_exec_sum,l1d_refill_count,llc_miss_count,tlb_walk_count,remote_access_count").toList

def ManifestSource.header (m : ManifestSource) : List (Text × Text) :=
  [("hotspot_top_k".toList, numeral false m.topK),
    ("hotspot_identity".toList, "module_offset".toList),
    ("hotspot_scope".toList, "main_binary_only".toList),
    ("hotspot_main_binary".toList, m.mainBinaryPath),
    ("hotspot_kind_hint".toList, "arm_spe_loadstore".toList),
    ("hotspot_selection_policy".toList, "pareto_sample_count_avg_mem_latency".toList),
    ("hotspot_fields".toList, hotspotFieldNames),
    ("hotspot_count".toList, numeral false (m.tids.map fun tid => (m.collect tid).length).sum),
    ("hotspot_unmapped_pc_samples".toList, numeral false m.unmappedSamples.toNat)]

def headerLine (p : Text × Text) : Text := p.1 ++ '=' :: p.2

def tabbed (fields : List Text) : Text := hotspotKeyword ++ ['\t'].intercalate fields

/-- The fields of one hotspot; a stream prints a `double` with six digits. -/
def HotspotSummary.fields (rank : ℕ) (s : HotspotSummary) : List Text :=
  [integer false s.tid, numeral false rank, numeral false s.sampleCount.toNat,
    numeral false s.moduleId.toNat, numeral true s.pcOffset.toNat, s.path,
    numeral false s.paretoFront.toNat, numeral false s.candidateScore.toNat, s.candidateMetric,
    formatG 6 s.avgMemLatency, numeral false s.latTotalSum.toNat,
    numeral false s.latIssueSum.toNat, numeral false s.latXlatSum.toNat,
    numeral false s.latExecSum.toNat, numeral false s.l1dRefillCount.toNat,
    numeral false s.llcMissCount.toNat, numeral false s.tlbWalkCount.toNat,
    numeral false s.remoteAccessCount.toNat]

def unlines (lines : List Text) : Text := lines.flatMap fun line => line ++ ['\n']

def ManifestSource.hotspotLines (m : ManifestSource) : List Text :=
  m.tids.flatMap fun tid =>
    (m.collect tid).mapIdx fun rank s => tabbed (s.fields (rank + 1))

def writeHotspotManifest (m : ManifestSource) : Text :=
  unlines (m.header.map headerLine ++ m.hotspotLines)

/-! ## The parser of the resolver -/

structure HotpcEntry where
  tid : ℤ
  rank : ℤ
  sampleCount : ℤ
  moduleId : ℤ
  pcOffset : ℤ
  path : Text
  paretoFront : ℤ
  candidateScore : ℤ
  candidateMetric : Text
  avgMemLatency : Double
  latTotalSum : ℤ
  latIssueSum : ℤ
  latXlatSum : ℤ
  latExecSum : ℤ
  l1dRefillCount : ℤ
  llcMissCount : ℤ
  tlbWalkCount : ℤ
  remoteAccessCount : ℤ
  deriving DecidableEq

/-- `SystemExit` with the line, or the `ValueError` of `int` or `float`. -/
inductive HotpcError
  | malformedEntry (line : Text)
  | invalidInt (base : ℕ) (s : Text)
  | invalidFloat (s : Text)
  deriving DecidableEq

abbrev HotpcMetadata := AList fun _ : Text => Text

def intField (base : ℕ) (s : Text) : Except HotpcError ℤ :=
  match parseInt base s with
  | some i => pure i
  | none => throw (.invalidInt base s)

def floatField (nearest : ℚ → Double) (s : Text) : Except HotpcError Double :=
  match parseFloat nearest s with
  | some x => pure x
  | none => throw (.invalidFloat s)

/-- A field that an older manifest lacks has a default; so has an empty one. -/
def extraField {α : Type} (read : Text → Except HotpcError α) (absent : Except HotpcError α)
    (extra : List Text) (i : ℕ) : Except HotpcError α :=
  match extra[i]? with
  | some f => if f ≠ [] then read f else absent
  | none => absent

def parseEntry (nearest : ℚ → Double) (line : Text) : Except HotpcError HotpcEntry := do
  let parts := (splitOnce '=' line).2.splitOn '\t'
  if parts.length < 6 then throw (.malformedEntry line)
  let extra := parts.drop 6
  let count := extraField (intField 10) (pure 0) extra
  let tid ← intField 10 (parts.getD 0 [])
  let rank ← intField 10 (parts.getD 1 [])
  let sampleCount ← intField 10 (parts.getD 2 [])
  let moduleId ← intField 10 (parts.getD 3 [])
  let pcOffset ← intField 16 (parts.getD 4 [])
  let paretoFront ← count 0
  let candidateScore ← extraField (intField 10) (intField 10 (parts.getD 2 [])) extra 1
  let avgMemLatency ← extraField (floatField nearest) (pure (.finite 0)) extra 3
  let latTotalSum ← count 4
  let latIssueSum ← count 5
  let latXlatSum ← count 6
  let latExecSum ← count 7
  let l1dRefillCount ← count 8
  let llcMissCount ← count 9
  let tlbWalkCount ← count 10
  let remoteAccessCount ← count 11
  pure {
    tid, rank, sampleCount, moduleId, pcOffset
    path := parts.getD 5 []
    paretoFront, candidateScore
    candidateMetric := extra.getD 2 "sample_count".toList
    avgMemLatency, latTotalSum, latIssueSum, latXlatSum, latExecSum, l1dRefillCount, llcMissCount
    tlbWalkCount, remoteAccessCount }

def readHotpcLine (nearest : ℚ → Double) (s : HotpcMetadata × List HotpcEntry) (line : Text) :
    Except HotpcError (HotpcMetadata × List HotpcEntry) :=
  if line = [] then pure s
  else if hotspotKeyword.isPrefixOf line then do
    let entry ← parseEntry nearest line
    pure (s.1, s.2 ++ [entry])
  else if '=' ∈ line then
    pure (s.1.insert (splitOnce '=' line).1 (splitOnce '=' line).2, s.2)
  else pure s

def parseHotpc (nearest : ℚ → Double) (text : Text) :
    Except HotpcError (HotpcMetadata × List HotpcEntry) :=
  (fileLines text).foldlM (readHotpcLine nearest) (∅, [])

/-! ## The filter -/

structure HotpcKey where
  path : Text
  moduleId : ℤ
  pcOffset : ℤ
  deriving DecidableEq

def HotpcEntry.key (e : HotpcEntry) : HotpcKey := ⟨e.path, e.moduleId, e.pcOffset⟩

def HotpcEntry.fields (rank : ℤ) (e : HotpcEntry) : List Text :=
  [formatInt 10 e.tid, formatInt 10 rank, formatInt 10 e.sampleCount, formatInt 10 e.moduleId,
    '0' :: 'x' :: formatInt 16 e.pcOffset, e.path, formatInt 10 e.paretoFront,
    formatInt 10 e.candidateScore, e.candidateMetric, e.avgMemLatency.format 6,
    formatInt 10 e.latTotalSum, formatInt 10 e.latIssueSum, formatInt 10 e.latXlatSum,
    formatInt 10 e.latExecSum, formatInt 10 e.l1dRefillCount, formatInt 10 e.llcMissCount,
    formatInt 10 e.tlbWalkCount, formatInt 10 e.remoteAccessCount]

def hotspotEntryLine (e : HotpcEntry) (rank : ℤ) : Text := tabbed (e.fields rank)

def HotpcEntry.sortKey (e : HotpcEntry) : ℤ ×ₗ ℤ ×ₗ ℤ :=
  toLex (e.rank, toLex (-e.latExecSum, e.pcOffset))

def filteredMetadata (input : Text) (removed kept : ℕ) (metadata : HotpcMetadata) : HotpcMetadata :=
  ((((metadata.insert "hotspot_filter".toList "source_statement_valid".toList).insert
    "hotspot_filter_input".toList input).insert
    "hotspot_filter_removed_count".toList (formatInt 10 removed)).insert
    "hotspot_count".toList (formatInt 10 kept)).insert "hotspot_fields".toList hotspotFieldNames

def sortedHeader (metadata : HotpcMetadata) : List (Text × Text) :=
  (metadata.keys.mergeSort (· ≤ ·)).map fun key => (key, (metadata.lookup key).getD [])

def rankedLines (entries : List HotpcEntry) (tid : ℤ) : List Text :=
  ((entries.filter (·.tid = tid)).mergeSort fun a b => a.sortKey ≤ b.sortKey).mapIdx
    fun i e => hotspotEntryLine e (i + 1)

def keptEntries (resolved : List HotpcKey) (entries : List HotpcEntry) : List HotpcEntry :=
  entries.filter (·.key ∈ resolved)

/-- `resolved` are the keys of the hotspots that were resolved, `input` is the name of the manifest
that is filtered. -/
def writeFilteredHotpc (input : Text) (metadata : HotpcMetadata) (entries : List HotpcEntry)
    (resolved : List HotpcKey) : Text :=
  let filtered := keptEntries resolved entries
  let tids := (filtered.map HotpcEntry.tid).dedup.mergeSort (· ≤ ·)
  unlines ((sortedHeader (filteredMetadata input (entries.length - filtered.length)
    filtered.length metadata)).map headerLine ++ tids.flatMap (rankedLines filtered))

/-! ## Lines and fields -/

structure CleanText (s : Text) : Prop where
  tab : '\t' ∉ s
  cr : '\r' ∉ s
  newline : '\n' ∉ s

theorem cleanText_of_visible {s : Text} (h : ∀ c ∈ s, 32 < c.toNat ∧ c.toNat < 128) :
    CleanText s := by
  refine ⟨fun hc => ?_, fun hc => ?_, fun hc => ?_⟩
  · exact absurd (h _ hc).1 (by decide)
  · exact absurd (h _ hc).1 (by decide)
  · exact absurd (h _ hc).1 (by decide)

theorem cleanText_formatInt (i : ℤ) : CleanText (formatInt 10 i) :=
  cleanText_of_visible fun _ hc => formatInt_visible (.inl rfl) hc

theorem formatInt_ne_nil (base : ℕ) (i : ℤ) : formatInt base i ≠ [] := by
  unfold formatInt
  split_ifs
  · exact List.cons_ne_nil _ _
  · exact Nat.toDigits_ne_nil

abbrev HotpcRow := HotpcEntry × ℤ

def rowLine (r : HotpcRow) : Text := hotspotEntryLine r.1 r.2

def rereadLatency (nearest : ℚ → Double) (x : Double) : Double :=
  (parseFloat nearest (x.format 6)).getD (.finite 0)

def HotpcRow.entry (nearest : ℚ → Double) (r : HotpcRow) : HotpcEntry :=
  { r.1 with rank := r.2, avgMemLatency := rereadLatency nearest r.1.avgMemLatency }

def HotpcEntry.toManifest (e : HotpcEntry) : ManifestEntry :=
  ⟨BitVec.ofInt 64 e.pcOffset, BitVec.ofInt 64 e.sampleCount,
    some (BitVec.ofInt 64 e.candidateScore)⟩

/-- Texts that stay in their field, and numbers that the monitor can have counted. -/
structure HotpcEntry.Printable (e : HotpcEntry) : Prop where
  path : CleanText e.path
  candidateMetric : CleanText e.candidateMetric
  pcOffset : ∃ v : U64, e.pcOffset = v.toNat
  sampleCount : ∃ v : U64, e.sampleCount = v.toNat
  candidateScore : ∃ v : U64, e.candidateScore = v.toNat

section Rows

variable {e : HotpcEntry} {r : HotpcRow}

theorem HotpcEntry.Printable.fields (he : e.Printable) (rank : ℤ) :
    ∀ f ∈ e.fields rank, CleanText f := by
  have hhex : CleanText ('0' :: 'x' :: formatInt 16 e.pcOffset) := by
    apply cleanText_of_visible
    intro c hc
    rw [List.mem_cons, List.mem_cons] at hc
    rcases hc with rfl | rfl | hc
    · decide
    · decide
    · exact formatInt_visible (.inr rfl) hc
  have hlatency : CleanText (e.avgMemLatency.format 6) :=
    cleanText_of_visible fun _ hc => Double.format_visible hc
  unfold HotpcEntry.fields
  simp only [List.forall_mem_cons, cleanText_formatInt, hhex, he.path, he.candidateMetric, hlatency,
    true_and, List.not_mem_nil, false_implies, implies_true]

/-- A row is one line, and none of the headers. -/
theorem rowLine_clean (hr : r.1.Printable) : '\n' ∉ rowLine r ∧ '\r' ∉ rowLine r := by
  have hmem : ∀ c ∈ rowLine r, c ∈ hotspotKeyword ∨ c = '\t' ∨ ∃ f ∈ r.1.fields r.2, c ∈ f := by
    intro c hc
    rcases List.mem_append.mp hc with h | h
    · exact .inl h
    · exact .inr (mem_intercalate h)
  constructor
  · intro hc
    rcases hmem _ hc with h | h | ⟨f, hf, h⟩
    · exact absurd h (by decide)
    · exact absurd h (by decide)
    · exact (hr.fields r.2 f hf).newline h
  · intro hc
    rcases hmem _ hc with h | h | ⟨f, hf, h⟩
    · exact absurd h (by decide)
    · exact absurd h (by decide)
    · exact (hr.fields r.2 f hf).cr h

theorem isHotspotLine_rowLine (r : HotpcRow) : isHotspotLine (rowLine r) = true := by
  rw [isHotspotLine, List.isPrefixOf_iff_prefix]
  exact List.prefix_append _ _

/-- The second stage finds the fields of a row again. -/
theorem hotspotFields_rowLine (hr : r.1.Printable) :
    hotspotFields (rowLine r) = r.1.fields r.2 := by
  have hdrop : (rowLine r).drop hotspotKeyword.length = ['\t'].intercalate (r.1.fields r.2) :=
    List.drop_left
  unfold hotspotFields splitTab
  rw [hdrop]
  apply getlines_intercalate
  · intro f hf
    exact (hr.fields r.2 f hf).tab
  · intro f hf
    cases hf
    exact formatInt_ne_nil _ _

/-- The resolver finds them as well. -/
theorem parts_rowLine (hr : r.1.Printable) :
    (splitOnce '=' (rowLine r)).2.splitOn '\t' = r.1.fields r.2 := by
  have hline : rowLine r = "hotspot".toList ++ '=' :: ['\t'].intercalate (r.1.fields r.2) := rfl
  rw [hline, splitOnce_append (by decide)]
  apply List.splitOn_intercalate
  · intro f hf
    exact (hr.fields r.2 f hf).tab
  · exact List.cons_ne_nil _ _

theorem intField_formatInt (i : ℤ) : intField 10 (formatInt 10 i) = .ok i := by
  unfold intField
  rw [parseInt_formatInt (.inl rfl)]
  rfl

theorem floatField_format (nearest : ℚ → Double) (x : Double) :
    floatField nearest (x.format 6) = .ok (rereadLatency nearest x) := by
  obtain ⟨y, hy⟩ := Option.isSome_iff_exists.mp (parseFloat_format nearest 6 x)
  unfold floatField rereadLatency
  rw [hy]
  rfl

theorem parseEntry_rowLine (nearest : ℚ → Double) (hr : r.1.Printable) :
    parseEntry nearest (rowLine r) = .ok (r.entry nearest) := by
  obtain ⟨v, hv⟩ := hr.pcOffset
  have hhex : intField 16 ('0' :: 'x' :: formatInt 16 r.1.pcOffset) = .ok r.1.pcOffset := by
    unfold intField
    rw [hv, parseInt_hex]
    rfl
  have hformat : r.1.avgMemLatency.format 6 ≠ [] := by
    intro hnil
    have hsome := parseFloat_format nearest 6 r.1.avgMemLatency
    rw [hnil] at hsome
    cases hsome
  unfold parseEntry
  rw [parts_rowLine hr]
  simp only [HotpcEntry.fields, List.length_cons, List.length_nil, Nat.reduceAdd, Nat.reduceLT,
    List.getD_eq_getElem?_getD, getElem?_pos, List.getElem_cons_zero, List.getElem_cons_succ,
    Option.getD_some, List.drop_succ_cons, List.drop_zero, Nat.ofNat_pos, Nat.one_lt_ofNat,
    Nat.lt_add_one, extraField, ne_eq, formatInt_ne_nil, hformat, not_false_eq_true, if_true,
    if_false, intField_formatInt, hhex, floatField_format]
  rfl

theorem strtoull_formatInt (v : U64) :
    (strtoull 10 (cstr (formatInt 10 (v.toNat : ℤ)))).1 = BitVec.ofInt 64 (v.toNat : ℤ) := by
  have hformat : formatInt 10 (v.toNat : ℤ) = Nat.toDigits 10 v.toNat := by
    unfold formatInt
    rw [if_neg (by omega), Int.natAbs_natCast]
  have hcstr : cstr (Nat.toDigits 10 v.toNat) = Nat.toDigits 10 v.toNat :=
    cstr_of_digits fun c hc => .inl ((toDigits_digit (.inl rfl) hc).trans (by decide))
  rw [hformat, hcstr, BitVec.ofInt_natCast]
  exact strtoul_toDigits v.isLt

theorem strtoull_hexText (v : U64) :
    (strtoull 0 (cstr ('0' :: 'x' :: formatInt 16 (v.toNat : ℤ)))).1 =
      BitVec.ofInt 64 (v.toNat : ℤ) := by
  have hformat : '0' :: 'x' :: formatInt 16 (v.toNat : ℤ) = numeral true v.toNat := by
    unfold formatInt
    rw [if_neg (by omega), Int.natAbs_natCast]
    rfl
  have hcstr : cstr (numeral true v.toNat) = numeral true v.toNat :=
    cstr_of_digits fun c hc => .inl (numeral_digits true _ c hc)
  rw [hformat, hcstr, BitVec.ofInt_natCast]
  exact strtoul_numeral true v.isLt

/-- The second stage reads the numbers that were written. -/
theorem manifestEntry_fields (he : e.Printable) (rank : ℤ) :
    manifestEntry (e.fields rank) = e.toManifest := by
  obtain ⟨o, ho⟩ := he.pcOffset
  obtain ⟨n, hn⟩ := he.sampleCount
  obtain ⟨x, hx⟩ := he.candidateScore
  unfold HotpcEntry.toManifest
  rw [ho, hn, hx, ← strtoull_hexText, ← strtoull_formatInt n, ← strtoull_formatInt x, ← ho, ← hn,
    ← hx]
  rfl

end Rows

/-! ## Manifests as headers and rows -/

/-- A header that neither reader takes for a hotspot, on a line of its own. -/
structure PlainPair (p : Text × Text) : Prop where
  key : '=' ∉ p.1
  ne_hotspot : p.1 ≠ "hotspot".toList
  line : '\n' ∉ headerLine p ∧ '\r' ∉ headerLine p

structure PlainHeader (header : List (Text × Text)) : Prop where
  pairs : ∀ p ∈ header, PlainPair p
  nodup : (header.map Prod.fst).Nodup

def manifestLines (header : List (Text × Text)) (rows : List HotpcRow) : List Text :=
  header.map headerLine ++ rows.map rowLine

section Headers

variable {header : List (Text × Text)} {rows : List HotpcRow} {p : Text × Text}

theorem isPrefixOf_headerLine {name : Text} (hname : '=' ∉ name) (hp : '=' ∉ p.1) :
    (name ++ ['=']).isPrefixOf (headerLine p) = true ↔ p.1 = name := by
  rw [List.isPrefixOf_iff_prefix]
  constructor
  · rintro ⟨rest, hrest⟩
    rw [List.append_assoc, List.singleton_append] at hrest
    have hsplit := congrArg (splitOnce '=') hrest
    rw [headerLine, splitOnce_append hname, splitOnce_append hp] at hsplit
    exact (Prod.mk.inj hsplit).1.symm
  · rintro rfl
    exact ⟨p.2, by rw [List.append_assoc, List.singleton_append, headerLine]⟩

theorem isHotspotLine_headerLine (hp : PlainPair p) : isHotspotLine (headerLine p) = false := by
  rw [← Bool.not_eq_true]
  exact fun h => hp.ne_hotspot ((isPrefixOf_headerLine (by decide) hp.key).mp h)

theorem readHotpcLine_headerLine (nearest : ℚ → Double) (s : HotpcMetadata × List HotpcEntry)
    (hp : PlainPair p) :
    readHotpcLine nearest s (headerLine p) = .ok (s.1.insert p.1 p.2, s.2) := by
  have hmem : '=' ∈ headerLine p := List.mem_append_right _ List.mem_cons_self
  have hhot : ¬ hotspotKeyword.isPrefixOf (headerLine p) = true := by
    rw [Bool.not_eq_true]
    exact isHotspotLine_headerLine hp
  unfold readHotpcLine
  rw [if_neg (List.ne_nil_of_mem hmem), if_neg hhot, if_pos hmem, headerLine,
    splitOnce_append hp.key]
  rfl

theorem readHotpcLine_rowLine (nearest : ℚ → Double) (s : HotpcMetadata × List HotpcEntry)
    {r : HotpcRow} (hr : r.1.Printable) :
    readHotpcLine nearest s (rowLine r) = .ok (s.1, s.2 ++ [r.entry nearest]) := by
  have hne : rowLine r ≠ [] := List.append_ne_nil_of_left_ne_nil (by decide) _
  have hhot : hotspotKeyword.isPrefixOf (rowLine r) = true := isHotspotLine_rowLine r
  unfold readHotpcLine
  rw [if_neg hne, if_pos hhot, parseEntry_rowLine nearest hr]
  rfl

theorem foldlM_headerLines (nearest : ℚ → Double) (h : ∀ p ∈ header, PlainPair p)
    (s : HotpcMetadata × List HotpcEntry) :
    (header.map headerLine).foldlM (readHotpcLine nearest) s =
      .ok (header.foldl (fun d p => d.insert p.1 p.2) s.1, s.2) := by
  induction header generalizing s with
  | nil => rfl
  | cons p header ih =>
      rw [List.forall_mem_cons] at h
      rw [List.map_cons, List.foldlM_cons, readHotpcLine_headerLine nearest s h.1]
      exact ih h.2 _

theorem foldlM_rowLines (nearest : ℚ → Double) (h : ∀ r ∈ rows, r.1.Printable)
    (s : HotpcMetadata × List HotpcEntry) :
    (rows.map rowLine).foldlM (readHotpcLine nearest) s =
      .ok (s.1, s.2 ++ rows.map (HotpcRow.entry nearest)) := by
  induction rows generalizing s with
  | nil =>
      rw [List.map_nil, List.map_nil, List.append_nil]
      rfl
  | cons r rows ih =>
      rw [List.forall_mem_cons] at h
      have hrest := ih h.2 (s.1, s.2 ++ [r.entry nearest])
      rw [List.append_assoc, List.singleton_append] at hrest
      rw [List.map_cons, List.foldlM_cons, readHotpcLine_rowLine nearest s h.1, List.map_cons]
      exact hrest

/-- The main binary is the one of its only header. -/
theorem mainBinaryAfter_headerLines (env : LoadEnv) (hkeys : ∀ p ∈ header, PlainPair p)
    (hnd : (header.map Prod.fst).Nodup) (path : Text) :
    (∀ v, ("hotspot_main_binary".toList, v) ∈ header →
        mainBinaryAfter env path (header.map headerLine) =
          normalizeFilesystemPath env.realpath v) ∧
      ("hotspot_main_binary".toList ∉ header.map Prod.fst →
        mainBinaryAfter env path (header.map headerLine) = path) := by
  induction header generalizing path with
  | nil => exact ⟨fun v hv => (List.not_mem_nil hv).elim, fun _ => rfl⟩
  | cons p header ih =>
      rw [List.forall_mem_cons] at hkeys
      rw [List.map_cons, List.nodup_cons] at hnd
      have hmark : mainBinaryKey.isPrefixOf (headerLine p) = true ↔
          p.1 = "hotspot_main_binary".toList :=
        @isPrefixOf_headerLine p "hotspot_main_binary".toList (by decide) hkeys.1.key
      have hcons : ∀ q, mainBinaryAfter env path ((p :: header).map headerLine) = q ↔
          mainBinaryAfter env (if mainBinaryKey.isPrefixOf (headerLine p) then
            normalizeFilesystemPath env.realpath ((headerLine p).drop mainBinaryKey.length)
            else path) (header.map headerLine) = q := fun q => Iff.rfl
      constructor
      · intro v hv
        rw [hcons]
        rcases List.mem_cons.mp hv with hp | hv
        · have hp1 : p.1 = "hotspot_main_binary".toList := by rw [← hp]
          have hdrop : (headerLine p).drop mainBinaryKey.length = v := by
            rw [← hp]
            rfl
          rw [if_pos (hmark.mpr hp1), hdrop]
          rw [hp1] at hnd
          exact (ih hkeys.2 hnd.2 _).2 hnd.1
        · exact (ih hkeys.2 hnd.2 _).1 v hv
      · intro hnone
        rw [List.map_cons, List.mem_cons, not_or] at hnone
        rw [hcons, if_neg fun h => hnone.1 (hmark.mp h).symm]
        exact (ih hkeys.2 hnd.2 path).2 hnone.2

variable (hh : PlainHeader header)

include hh

theorem filter_not_hotspot_manifest :
    ((manifestLines header rows).filter fun line => !isHotspotLine line) =
      header.map headerLine := by
  unfold manifestLines
  rw [List.filter_append, List.filter_eq_self.mpr, List.filter_eq_nil_iff.mpr, List.append_nil]
  · intro line hline
    obtain ⟨r, -, rfl⟩ := List.mem_map.mp hline
    simp [isHotspotLine_rowLine]
  · intro line hline
    obtain ⟨p, hp, rfl⟩ := List.mem_map.mp hline
    simp [isHotspotLine_headerLine (hh.pairs p hp)]

variable (hrows : ∀ r ∈ rows, r.1.Printable)

include hrows

theorem manifestLines_clean : ∀ line ∈ manifestLines header rows, '\n' ∉ line ∧ '\r' ∉ line := by
  intro line hline
  rcases List.mem_append.mp hline with h | h
  · obtain ⟨p, hp, rfl⟩ := List.mem_map.mp h
    exact (hh.pairs p hp).line
  · obtain ⟨r, hr, rfl⟩ := List.mem_map.mp h
    exact rowLine_clean (hrows r hr)

theorem getlines_manifest :
    getlines '\n' [] (unlines (manifestLines header rows)) = manifestLines header rows := by
  have h := getlines_flatMap (f := id) fun line hline => (manifestLines_clean hh hrows line hline).1
  rw [List.map_id] at h
  exact h

/-- The resolver reads back the headers and rows. -/
theorem parseHotpc_manifest (nearest : ℚ → Double) :
    parseHotpc nearest (unlines (manifestLines header rows)) =
      .ok (header.foldl (fun d p => d.insert p.1 p.2) ∅, rows.map (HotpcRow.entry nearest)) := by
  have hlines := fileLines_flatMap (f := id) (manifestLines_clean hh hrows)
  rw [List.map_id] at hlines
  unfold parseHotpc unlines
  change List.foldlM _ _
    (fileLines ((manifestLines header rows).flatMap fun x => id x ++ ['\n'])) = _
  rw [hlines, manifestLines, List.foldlM_append, foldlM_headerLines nearest hh.pairs]
  exact foldlM_rowLines nearest hrows _

/-- The second stage reads the numbers of the rows. -/
theorem manifestEntries_manifest :
    manifestEntries (manifestLines header rows) = rows.map fun r => r.1.toManifest := by
  have hheader : (header.map headerLine).filter isHotspotLine = [] := by
    rw [List.filter_eq_nil_iff]
    intro line hline
    obtain ⟨p, hp, rfl⟩ := List.mem_map.mp hline
    rw [isHotspotLine_headerLine (hh.pairs p hp)]
    exact Bool.false_ne_true
  have hrow : (rows.map rowLine).filter isHotspotLine = rows.map rowLine := by
    rw [List.filter_eq_self]
    intro line hline
    obtain ⟨r, -, rfl⟩ := List.mem_map.mp hline
    exact isHotspotLine_rowLine r
  unfold manifestEntries manifestLines
  rw [List.filter_append, hheader, hrow, List.nil_append, List.map_map]
  apply List.map_congr_left
  intro r hr
  rw [Function.comp_apply, hotspotFields_rowLine (hrows r hr), manifestEntry_fields (hrows r hr)]

/-- A manifest of hotspots in the main binary is read to its end. -/
theorem goodLine_manifest {env : LoadEnv}
    (hpath : ∀ r ∈ rows, normalizeFilesystemPath env.realpath r.1.path = env.mainBinaryPath) :
    ∀ line ∈ manifestLines header rows, GoodLine env line := by
  intro line hline hhot
  rcases List.mem_append.mp hline with h | h
  · obtain ⟨p, hp, rfl⟩ := List.mem_map.mp h
    rw [isHotspotLine_headerLine (hh.pairs p hp)] at hhot
    cases hhot
  · obtain ⟨r, hr, rfl⟩ := List.mem_map.mp h
    rw [hotspotFields_rowLine (hrows r hr)]
    exact ⟨by simp [HotpcEntry.fields], .inr (hpath r hr)⟩

end Headers

end RdSpeTool
