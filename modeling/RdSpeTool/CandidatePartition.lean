import RdSpeTool.TargetLoading

/-!
# Candidates of the second stage

Every offset of a manifest ends as a target, as a rejected one or in the remainder that the capacity
cuts off. The result is a function of the hotspot lines as a multiset.
-/

namespace RdSpeTool

open CText StrictSort

/-! ## Filling the breakpoints -/

section Filling

variable {env : LoadEnv}

def rejection (env : LoadEnv) (c : TargetCandidate) : Option RejectedTarget :=
  match decodeTarget env c with
  | .ok _ => none
  | .error reason => some ⟨c.1, c.2.sampleCount, reason⟩

/-- The candidate becomes a target, or its error only sets it aside. -/
def Triable (env : LoadEnv) (c : TargetCandidate) : Prop :=
  ∀ reason, decodeTarget env c = .error reason → isFilterableHotspotError reason = true

/-- All that the loop does. -/
theorem fillTargets_ok {l : List TargetCandidate} {acc r : LoadedTargets}
    (h : fillTargets env acc l = .ok r) :
    ∃ tried rest, l = tried ++ rest ∧ (∀ c ∈ tried, Triable env c) ∧
      r.targets = acc.targets ++ tried.filterMap (fun c => (decodeTarget env c).toOption) ∧
      r.rejectedTargets = acc.rejectedTargets ++ tried.filterMap (rejection env) ∧
      r.candidateTargetCount = acc.candidateTargetCount ∧
      (rest = [] → r.capacityTruncatedTargetCount = acc.capacityTruncatedTargetCount) ∧
      (rest ≠ [] → r.capacityTruncatedTargetCount = min rest.length uint32Max ∧
        env.bpCapacity.toNat ≤ r.targets.length) ∧
      (acc.targets.length ≤ env.bpCapacity.toNat → r.targets.length ≤ env.bpCapacity.toNat) := by
  induction l generalizing acc with
  | nil =>
      cases h
      exact ⟨[], [], rfl, by simp, by simp, by simp, rfl, fun _ => rfl, by simp, id⟩
  | cons c l ih =>
      rw [fillTargets] at h
      split_ifs at h with hfull
      · cases h
        exact ⟨[], c :: l, rfl, by simp, by simp, by simp, rfl, by simp, fun _ => ⟨rfl, hfull⟩, id⟩
      · cases hdec : decodeTarget env c with
        | ok target =>
            rw [hdec] at h
            obtain ⟨tried, rest, rfl, htry, ht, hr, hc, hnil, hne, hle⟩ := ih h
            refine ⟨c :: tried, rest, rfl, ?_, ?_, ?_, hc, hnil, hne, fun _ => hle ?_⟩
            · rw [List.forall_mem_cons]
              refine ⟨fun reason hreason => ?_, htry⟩
              rw [hdec] at hreason
              cases hreason
            · rw [ht, List.filterMap_cons, hdec]
              simp [Except.toOption]
            · rw [hr, List.filterMap_cons, rejection, hdec]
            · rw [List.length_append, List.length_singleton]
              omega
        | error reason =>
            rw [hdec] at h
            dsimp only at h
            split_ifs at h with hfilter
            obtain ⟨tried, rest, rfl, htry, ht, hr, hc, hnil, hne, hle⟩ := ih h
            refine ⟨c :: tried, rest, rfl, ?_, ?_, ?_, hc, hnil, hne, hle⟩
            · rw [List.forall_mem_cons]
              refine ⟨fun reason' hreason => ?_, htry⟩
              rw [hdec] at hreason
              cases hreason
              exact hfilter
            · rw [ht, List.filterMap_cons, hdec]
              rfl
            · rw [hr, List.filterMap_cons, rejection, hdec, List.append_assoc]
              rfl

end Filling

/-! ## The whole load -/

section Load

variable {env : LoadEnv} {iterate : List TargetCandidate → List TargetCandidate} {manifest : Text}

/-- What a manifest must be like to be read to its end. -/
def Readable (env : LoadEnv) (lines : List Text) : Prop :=
  (∀ line ∈ lines, GoodLine env line) ∧
    (mainBinaryAfter env [] lines = [] ∨ mainBinaryAfter env [] lines = env.mainBinaryPath)

/-- A load reads the manifest and then works through the candidates in order. -/
theorem loadTargets_eq (hiter : ∀ l, (iterate l).Perm l) :
    (Readable env (getlines '\n' [] manifest) ∧
        ∃ l, l.Perm (candidates (manifestEntries (getlines '\n' [] manifest))) ∧
          loadTargets env iterate manifest = chooseTargets env l) ∨
      ¬ Readable env (getlines '\n' [] manifest) ∧
        ∃ e, loadTargets env iterate manifest = .error e := by
  unfold loadTargets
  obtain ⟨s, hs, hgood, hmain, hagg⟩ | ⟨e, he, hbad⟩ :=
    @foldlM_readManifestLine env ⟨[], ∅⟩ (getlines '\n' [] manifest)
  · rw [hs]
    change (_ ∧ ∃ l, _ ∧ (if s.manifestMainBinary ≠ [] ∧ _ then _ else _) = _) ∨
      _ ∧ ∃ e, (if s.manifestMainBinary ≠ [] ∧ _ then _ else _) = _
    rw [hmain, hagg]
    dsimp only
    split_ifs with hbin
    · refine .inr ⟨fun h => ?_, _, rfl⟩
      rcases h.2 with hp | hp
      · exact hbin.1 hp
      · exact hbin.2 hp
    · refine .inl ⟨⟨hgood, ?_⟩, _, (hiter _).trans (entries_perm_candidates _), rfl⟩
      by_contra hp
      rw [not_or] at hp
      exact hbin hp
  · rw [he]
    exact .inr ⟨fun h => hbad h.1, e, rfl⟩

theorem chooseTargets_perm {entries : List ManifestEntry} {l : List TargetCandidate}
    (h : l.Perm (candidates entries)) :
    chooseTargets env l = chooseTargets env (candidates entries) := by
  unfold chooseTargets
  have hnil : l = [] ↔ candidates entries = [] := by
    constructor
    · rintro rfl
      exact h.symm.eq_nil
    · intro he
      rw [he] at h
      exact h.eq_nil
  rw [sort_eq_candidateOrder h, sort_eq_candidateOrder (.refl (candidates entries)), h.length_eq]
  simp only [hnil]

theorem chooseTargets_ok {l : List TargetCandidate} {r : LoadedTargets}
    (h : chooseTargets env l = .ok r) :
    fillTargets env ⟨[], [], min l.length uint32Max, 0⟩ (sort candidateBefore l) = .ok r := by
  unfold chooseTargets at h
  split_ifs at h
  cases hfill : fillTargets env ⟨[], [], min l.length uint32Max, 0⟩ (sort candidateBefore l) with
  | error e =>
      rw [hfill] at h
      cases h
  | ok loaded =>
      rw [hfill] at h
      change (if loaded.targets = [] then _ else _) = _ at h
      split_ifs at h
      cases h
      rfl

theorem mainBinaryAfter_filter (env : LoadEnv) (path : Text) (lines : List Text) :
    mainBinaryAfter env path lines =
      mainBinaryAfter env path (lines.filter fun line => !isHotspotLine line) := by
  induction lines generalizing path with
  | nil => rfl
  | cons line lines ih =>
      by_cases hhot : isHotspotLine line = true
      · rw [List.filter_cons_of_neg (by simp [hhot])]
        unfold mainBinaryAfter
        rw [List.foldl_cons, if_neg (by simp [not_mainBinaryKey_of_hotspot hhot])]
        exact ih path
      · rw [List.filter_cons_of_pos (by simpa using hhot)]
        exact ih _

/-- Two manifests that differ in the order of their hotspot lines only. -/
structure SameHotspots (lines lines' : List Text) : Prop where
  hotspots : (lines.filter isHotspotLine).Perm (lines'.filter isHotspotLine)
  others : (lines.filter fun line => !isHotspotLine line) =
    lines'.filter fun line => !isHotspotLine line

theorem SameHotspots.readable {lines lines' : List Text} (h : SameHotspots lines lines')
    (hr : Readable env lines) : Readable env lines' := by
  obtain ⟨hgood, hmain⟩ := hr
  refine ⟨fun line hline hhot => ?_, ?_⟩
  · have hmem : line ∈ lines.filter isHotspotLine :=
      h.hotspots.mem_iff.mpr (List.mem_filter.mpr ⟨hline, hhot⟩)
    exact hgood line (List.mem_of_mem_filter hmem) hhot
  · rw [mainBinaryAfter_filter] at hmain ⊢
    rw [← h.others]
    exact hmain

end Load

/-! ## The partition -/

def crowdedLine (k : ℕ) : Text := "hotspot=7\t1\t1\t0\t".toList ++ numeral true k ++ "\t/a".toList

def crowdedManifest (n : ℕ) : Text := (List.range n).flatMap fun k => crowdedLine k ++ ['\n']

def crowdedEnv : LoadEnv where
  targetFile := "/t".toList
  mainBinaryPath := "/a".toList
  realpath _ := none
  run cmd := (cmd.drop 29).takeWhile (· ≠ ' ') ++ ':' :: "\tf9000020 \tstr\tx0, [x1]".toList
  mapsLines := ["0-ffffffffffffffff r-xp 0 08:01 7 /a".toList]
  bpCapacity := 6

end RdSpeTool
