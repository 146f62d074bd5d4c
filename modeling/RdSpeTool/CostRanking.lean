import RdSpeTool.CallpathReport
import RdSpeTool.PairContexts

/-!
# Optimization candidates

`join_pair_context_perf_cost.py` gives each pair of contexts the cost of the call path that fits one
of its sides best, and ranks the pairs by it. Costs are exact rationals here.
-/

namespace RdSpeTool

open Ranking

namespace PerfMatch

open Resolver

/-! ## The code -/

def Callpath.perfEntry (p : Callpath) : PerfEntry where
  symbol := p.line.symbol
  callpathFrames := p.frames
  childrenPercent := p.childrenPercent
  selfPercent := p.selfPercent
  callpathId := p.callpathId
  callpathText := p.text
  branchIndex := p.branchIndex

structure MatchedCost where
  percent : ℚ
  callpathId : ℤ
  callpathText : Name
  deriving DecidableEq

def PerfResult.cost (r : PerfResult) : MatchedCost := ⟨r.percent, r.callpathId, r.callpathText⟩

structure Candidate where
  entry : PairEntry
  chosen : MatchedCost
  seed : MatchedCost
  reuse : MatchedCost

def enrich (perfEntries : List PerfEntry) (entry : PairEntry) : Candidate :=
  let seedMatch := bestPerfMatch entry.seedFunctions perfEntries
  let reuseMatch := bestPerfMatch entry.reuseFunctions perfEntries
  let chosen := if seedMatch.percent ≥ reuseMatch.percent then seedMatch else reuseMatch
  ⟨entry, chosen.cost, seedMatch.cost, reuseMatch.cost⟩

def Candidate.rank (c : Candidate) : ℚ ×ₗ ℕ := toLex (c.chosen.percent, c.entry.totalCount)

def candidates (perfEntries : List PerfEntry) (entries : List PairEntry) : List Candidate :=
  Ranking.ranked Candidate.rank (entries.map (enrich perfEntries))

structure CandidateRow where
  rank : ℕ
  entryId : ℕ
  perfCostPercent : ℚ
  matchedCallpathId : ℤ
  seedMatchedCallpathId : ℤ
  reuseMatchedCallpathId : ℤ
  totalCount : ℕ
  seedPcOffset : ℕ
  reusePc : ℕ
  deriving DecidableEq

def candidateRow (i : ℕ) (c : Candidate) : CandidateRow where
  rank := i + 1
  entryId := c.entry.entryId
  perfCostPercent := c.chosen.percent
  matchedCallpathId := c.chosen.callpathId
  seedMatchedCallpathId := c.seed.callpathId
  reuseMatchedCallpathId := c.reuse.callpathId
  totalCount := c.entry.totalCount
  seedPcOffset := c.entry.key.seedPcOffset
  reusePc := c.entry.key.reusePc

structure JoinReport where
  rows : List CandidateRow
  shown : List Candidate

def joinReport (perfEntries : List PerfEntry) (entries : List PairEntry) (top : ℤ) : JoinReport :=
  ⟨(candidates perfEntries entries).mapIdx candidateRow,
    sliceTo (candidates perfEntries entries) top⟩

/-! ## Matches -/

theorem one_le_commonPrefixLen {funcs frames : List Name} (h : funcs.head? = frames.head?)
    (hne : funcs ≠ []) : 1 ≤ commonPrefixLen funcs frames := by
  obtain ⟨name, rest, rfl⟩ := List.exists_cons_of_ne_nil hne
  cases frames with
  | nil => cases h
  | cons name' frames =>
      obtain rfl := Option.some.inj h
      rw [commonPrefixLen, if_neg (not_not.mpr rfl)]
      omega

/-- An entry with the right leaf is never passed over. -/
theorem confidenceOf_pos {funcs frames : List Name} (h : funcs.head? = frames.head?)
    (hne : funcs ≠ []) : 0 < confidenceOf funcs frames := by
  have hshare : (0 : ℚ) < commonPrefixLen funcs frames / funcs.length := by
    have hlen := List.length_pos_iff.mpr hne
    have hcommon := one_le_commonPrefixLen h hne
    positivity
  have hraise : ∀ {p : Prop} [Decidable p] {c k : ℚ}, 0 < c → 0 < if p then max c k else c := by
    intro p _ c k hc
    split_ifs
    · exact lt_max_of_lt_left hc
    · exact hc
  unfold confidenceOf
  dsimp only
  generalize (commonPrefixLen funcs frames : ℚ) / funcs.length = c at hshare ⊢
  have hcap : ∀ {p q : Prop} [Decidable p] [Decidable q] {c : ℚ}, 0 < c →
      0 < if p ∧ q ∧ c < 3 / 4 then min c (7 / 20) else c := by
    intro p q _ _ c hc
    split_ifs
    · exact lt_min hc (by norm_num)
    · exact hc
  exact hcap (hraise (hraise (hraise hshare)))

theorem candidate_eq_none_iff {funcs : List Name} (hne : funcs ≠ []) (e : PerfEntry) :
    candidate funcs e = none ↔ funcs.head? ≠ e.frames.head? := by
  unfold candidate
  by_cases hleaf : funcs.head? = e.frames.head?
  · have hframes : e.frames ≠ [] := by
      intro hnil
      rw [hnil, List.head?_nil, List.head?_eq_none_iff] at hleaf
      exact hne hleaf
    rw [if_pos ⟨hframes, hleaf, confidenceOf_pos hleaf hne⟩]
    simp [hleaf]
  · rw [if_neg fun h => hleaf h.2.1]
    simp [hleaf]

def Callpath.Fits (p : Callpath) (functions : List Text) : Prop :=
  normalizedFunctions functions ≠ [] ∧
    (normalizedFunctions functions).head? = p.perfEntry.frames.head?

/-- What a side of a pair is matched with: a path with its leaf, if there is one. -/
structure Matches (paths : List Callpath) (functions : List Text) (m : MatchedCost) : Prop where
  missing : (∀ p ∈ paths, ¬ p.Fits functions) → m = ⟨0, 0, []⟩
  found : (∃ p ∈ paths, p.Fits functions) → ∃ (i : ℕ) (p : Callpath), paths[i]? = some p ∧
    p.Fits functions ∧ m = ⟨max p.childrenPercent p.selfPercent, i + 1, p.text⟩
  /-- A path that begins with the whole list is not undercut. -/
  exact : ∀ p ∈ paths, normalizedFunctions functions ≠ [] →
    normalizedFunctions functions <+: p.perfEntry.frames →
      max p.childrenPercent p.selfPercent ≤ m.percent

theorem Callpath.fits_of_prefix (p : Callpath) {functions : List Text}
    (hne : normalizedFunctions functions ≠ [])
    (h : normalizedFunctions functions <+: p.perfEntry.frames) : p.Fits functions := by
  refine ⟨hne, ?_⟩
  obtain ⟨tail, htail⟩ := h
  obtain ⟨f, rest, hcons⟩ := List.exists_cons_of_ne_nil hne
  rw [← htail, hcons]
  rfl

theorem matches_bestPerfMatch {paths : List Callpath}
    (hids : ∀ (i : ℕ) (p : Callpath), paths[i]? = some p → p.callpathId = i + 1)
    (functions : List Text) :
    Matches paths functions (bestPerfMatch functions (paths.map Callpath.perfEntry)).cost := by
  by_cases hne : normalizedFunctions functions = []
  · have hunmatched : bestPerfMatch functions (paths.map Callpath.perfEntry) = unmatched :=
      if_pos hne
    rw [hunmatched]
    exact ⟨fun _ => rfl, fun ⟨p, _, h⟩ => absurd hne h.1, fun p _ h => absurd hne h⟩
  obtain ⟨hfrom, hall⟩ := bestPerfMatch_max hne (paths.map Callpath.perfEntry)
  have hnone : ∀ p : Callpath, candidate (normalizedFunctions functions) p.perfEntry = none ↔
      ¬ p.Fits functions := by
    intro p
    rw [candidate_eq_none_iff hne]
    exact ⟨fun h hfits => h hfits.2, fun h hleaf => h ⟨hne, hleaf⟩⟩
  refine ⟨fun hno => ?_, fun hsome => ?_, fun p hp _ hprefix => ?_⟩
  · rcases hfrom with ⟨heq, -⟩ | ⟨e, he, hc⟩
    · rw [heq]
      rfl
    · obtain ⟨p, hp, rfl⟩ := List.mem_map.mp he
      rw [(hnone p).mpr (hno p hp)] at hc
      cases hc
  · rcases hfrom with ⟨-, hmissing⟩ | ⟨e, he, hc⟩
    · obtain ⟨p, hp, hfits⟩ := hsome
      exact absurd hfits ((hnone p).mp (hmissing _ (List.mem_map_of_mem hp)))
    · obtain ⟨p, hp, rfl⟩ := List.mem_map.mp he
      obtain ⟨hresult, hleaf, -⟩ := score_of_candidate hc
      obtain ⟨i, hi⟩ := List.getElem?_of_mem hp
      have hid : (p.callpathId : ℤ) = i + 1 := by
        rw [hids i p hi]
        push_cast
        rfl
      refine ⟨i, p, hi, ⟨hne, hleaf⟩, ?_⟩
      rw [hresult, ← hid]
      rfl
  · have hmem : p.perfEntry ∈ paths.map Callpath.perfEntry := List.mem_map_of_mem hp
    obtain ⟨e, he, hbest, -, -, hmax⟩ := bestPerfMatch_exact hne ⟨_, hmem, hprefix⟩
    have hle : p.perfEntry.percent ≤ e.percent := hmax p.perfEntry hmem
      (p.fits_of_prefix hne hprefix).2 (commonPrefixLen_eq_length hprefix)
    rw [hbest]
    exact hle

/-! ## Frames of a path -/

/-- Where the two scripts agree on a symbol, the join adds no frame to a path. -/
theorem frames_perfEntry {p : Callpath} (hhead : normalizeSymbol p.line.symbol ≠ [] →
      p.frames.head? = some (normalizeSymbol p.line.symbol))
    (hplain : normalizeSymbol p.line.symbol = p.line.symbol) :
    p.perfEntry.frames = (p.frames.map normalizeName).filter (· ≠ []) := by
  rw [hplain] at hhead
  unfold PerfEntry.frames Callpath.perfEntry
  dsimp only
  rw [if_neg]
  rintro ⟨hname, hfirst⟩
  have hsymbol : p.line.symbol ≠ [] := by
    intro hnil
    rw [hnil] at hname
    exact hname rfl
  obtain ⟨rest, hrest⟩ : ∃ rest, p.frames = p.line.symbol :: rest := by
    have hfront := hhead hsymbol
    cases hframes : p.frames with
    | nil =>
        rw [hframes] at hfront
        cases hfront
    | cons f rest =>
        rw [hframes] at hfront
        exact ⟨rest, by rw [Option.some.inj hfront]⟩
  rw [hrest, List.map_cons, List.filter_cons_of_pos (by simpa using hname)] at hfirst
  rcases hfirst with hfirst | hfirst
  · cases hfirst
  · exact hfirst rfl

/-! ## The ranking -/

def Candidate.Precedes (a b : Candidate) : Prop :=
  b.rank < a.rank ∨ a.rank = b.rank ∧ a.entry.Precedes b.entry

theorem enrich_cost (perfEntries : List PerfEntry) (e : PairEntry) :
    (enrich perfEntries e).chosen.percent =
        max (enrich perfEntries e).seed.percent (enrich perfEntries e).reuse.percent ∧
      ((enrich perfEntries e).chosen = (enrich perfEntries e).seed ∨
        (enrich perfEntries e).chosen = (enrich perfEntries e).reuse) := by
  unfold enrich
  dsimp only
  split_ifs with hge
  · exact ⟨(max_eq_left hge).symm, .inl rfl⟩
  · exact ⟨(max_eq_right (not_le.mp hge).le).symm, .inr rfl⟩

theorem candidates_precedes (perfEntries : List PerfEntry) {entries : List PairEntry}
    (h : entries.Pairwise PairEntry.Precedes) :
    (candidates perfEntries entries).Pairwise Candidate.Precedes := by
  have hmapped : (entries.map (enrich perfEntries)).Pairwise
      fun a b => a.entry.Precedes b.entry := by
    rw [List.pairwise_map]
    exact h
  exact ranked_pairwise Candidate.rank (fun a b => a.entry.Precedes b.entry) hmapped

theorem candidates_perm (perfEntries : List PerfEntry) (entries : List PairEntry) :
    ((candidates perfEntries entries).map Candidate.entry).Perm entries := by
  have h := (ranked_perm Candidate.rank (entries.map (enrich perfEntries))).map Candidate.entry
  rw [List.map_map] at h
  exact h.trans (List.Perm.of_eq (List.map_id entries))

theorem joinReport_rows (perfEntries : List PerfEntry) (entries : List PairEntry) (top : ℤ) :
    (joinReport perfEntries entries top).rows.map CandidateRow.rank =
        List.range' 1 entries.length ∧
      (joinReport perfEntries entries top).rows.map CandidateRow.entryId =
        (candidates perfEntries entries).map fun c => c.entry.entryId := by
  have hlen : (candidates perfEntries entries).length = entries.length := by
    have h := (candidates_perm perfEntries entries).length_eq
    rwa [List.length_map] at h
  unfold joinReport
  dsimp only
  rw [← hlen]
  constructor
  · apply List.ext_getElem
    · simp
    · intro i hi hi'
      simp [candidateRow, Nat.add_comm]
  · apply List.ext_getElem
    · simp
    · intro i hi hi'
      simp [candidateRow]

/-- From the events and the cost report to the candidates: each pair of contexts that has events
is ranked once, with the larger cost of its two sides; a side costs what a call path with its leaf
costs, and no less than a path that begins with all its frames. -/
theorem candidates_of_reports (fdes : List Fde) (env : SymbolEnv) (normalizePath : Text → Text)
    (opts : ReportOptions) (events : List Event) (r : PairReport)
    (hr : pairReport fdes env normalizePath opts events = some r) (text : Name)
    (paths : List Callpath) (hpaths : parseReport text = .ok paths) (top : ℤ) :
    let found := candidates (paths.map Callpath.perfEntry) r.entries
    let report := joinReport (paths.map Callpath.perfEntry) r.entries top
    (found.map Candidate.entry).Perm r.entries ∧
    (found.map fun c => c.entry.totalCount).sum = events.length ∧
    (∀ c ∈ found, c.chosen.percent = max c.seed.percent c.reuse.percent ∧
      (c.chosen = c.seed ∨ c.chosen = c.reuse) ∧
      Matches paths c.entry.seedFunctions c.seed ∧
      Matches paths c.entry.reuseFunctions c.reuse) ∧
    found.Pairwise Candidate.Precedes ∧
    (report.rows.map CandidateRow.rank = List.range' 1 r.entries.length ∧
      report.rows.map CandidateRow.entryId = found.map fun c => c.entry.entryId) ∧
    report.shown <+: found ∧
    ∀ p ∈ paths, normalizeSymbol p.line.symbol = p.line.symbol →
      p.perfEntry.frames = (p.frames.map normalizeName).filter (· ≠ []) := by
  intro found report
  obtain ⟨unsorted, hu, hentries⟩ := pairReport_entries hr
  have hnumbered := (parseReport_eq_ok.mp hpaths).2
  have hids : ∀ (i : ℕ) (p : Callpath), paths[i]? = some p → p.callpathId = i + 1 := by
    rw [hnumbered]
    exact fun i p hp => (numberPaths_spec _ i p hp).1
  refine ⟨candidates_perm _ _, ?_, ?_, ?_, joinReport_rows _ _ top, sliceTo_prefix _ _, ?_⟩
  · have hsum := ((candidates_perm (paths.map Callpath.perfEntry) r.entries).map
      PairEntry.totalCount).sum_eq
    rw [List.map_map] at hsum
    refine hsum.trans ?_
    rw [hentries, ((ranked_perm PairEntry.rank unsorted).map PairEntry.totalCount).sum_eq, hu.total]
  · intro c hc
    obtain ⟨e, he, rfl⟩ := List.mem_map.mp (mem_ranked.mp hc)
    obtain ⟨hmax, hone⟩ := enrich_cost (paths.map Callpath.perfEntry) e
    exact ⟨hmax, hone, matches_bestPerfMatch hids _, matches_bestPerfMatch hids _⟩
  · apply candidates_precedes
    rw [hentries]
    exact hu.precedes
  · intro p hp hplain
    obtain ⟨i, hi⟩ := List.getElem?_of_mem hp
    rw [hnumbered] at hi
    obtain ⟨-, -, q, hq, rfl⟩ := numberPaths_spec _ i p hi
    obtain ⟨b, -, hqb⟩ := List.mem_flatMap.mp hq
    obtain ⟨hline, -, -, hhead⟩ := blockPaths_frames hqb
    rw [← hline] at hhead
    exact frames_perfEntry hhead hplain

def smallJoinText : Name :=
  ("    60.00%  stream  libm  [.] sin\n            |\n            |--40.00%--main\n" ++
    "    30.00%  stream  a  [.] main\n").toList

/-- The pair costs what its reuse costs; the event without stacks costs nothing. -/
theorem candidates_of_reports_small : ∃ r paths,
    pairReport [] smallSymbolEnv id ⟨3, 1, 0, 20, none⟩ [smallPairEvent 3 0x7f20, smallEvent 2] = some r ∧
    parseReport smallJoinText = .ok paths ∧
    (joinReport (paths.map Callpath.perfEntry) r.entries 20).rows.map
      (fun row => (row.entryId, row.perfCostPercent, row.matchedCallpathId)) =
        [(1, 40, 1), (2, 0, 0)] ∧
    ((candidates (paths.map Callpath.perfEntry) r.entries).map
      fun c => c.entry.totalCount).sum = 2 := by
  have hrows : (pairReport [] smallSymbolEnv id ⟨3, 1, 0, 20, none⟩
      [smallPairEvent 3 0x7f20, smallEvent 2]).bind (fun r => (parseReport smallJoinText).toOption.map
        fun paths => (joinReport (paths.map Callpath.perfEntry) r.entries 20).rows.map
          fun row => (row.entryId, row.perfCostPercent, row.matchedCallpathId)) =
      some [(1, 40, 1), (2, 0, 0)] := by
    decide +kernel
  obtain ⟨r, hr, hrows⟩ := Option.bind_eq_some_iff.mp hrows
  obtain ⟨paths, hpaths, hrows⟩ := Option.map_eq_some_iff.mp hrows
  have hparse : parseReport smallJoinText = .ok paths := by
    cases h : parseReport smallJoinText with
    | error e =>
        rw [h] at hpaths
        cases hpaths
    | ok ps =>
        rw [h] at hpaths
        rw [Option.some.inj hpaths]
  obtain ⟨-, htotal, -⟩ := candidates_of_reports [] smallSymbolEnv id ⟨3, 1, 0, 20, none⟩
    [smallPairEvent 3 0x7f20, smallEvent 2] r hr smallJoinText paths hparse 20
  exact ⟨r, paths, hr, hparse, hrows, htotal⟩

end PerfMatch

end RdSpeTool
