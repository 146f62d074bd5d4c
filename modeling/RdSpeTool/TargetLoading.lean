import Mathlib.Data.List.AList
import Mathlib.Data.Prod.Lex
import RdSpeTool.Disassembly
import RdSpeTool.StrictSort

/-!
# Targets of the second stage

`load_targets` adds up the hotspot lines of a manifest by PC offset, sorts the offsets and decodes
them one after the other until the breakpoints are used up. Unsupported instructions are set aside,
any other failure ends the load. The sums are kept in a hash map whose iteration order is a parameter
here.
-/

namespace RdSpeTool

open CText StrictSort

/-! ## The manifest -/

structure LoadEnv where
  targetFile : Text
  mainBinaryPath : Text
  realpath : Text → Option Text
  run : Text → Text
  mapsLines : List Text
  bpCapacity : U32

structure AggregatedHotspot where
  sampleCount : U64
  candidateScore : U64
  hasCandidateScore : Bool
  deriving DecidableEq

def AggregatedHotspot.zero : AggregatedHotspot := ⟨0, 0, false⟩

abbrev Aggregated := AList fun _ : U64 => AggregatedHotspot

def splitTab (line : Text) : List Text := getlines '\t' [] line

structure ManifestEntry where
  pcOffset : U64
  sampleCount : U64
  candidateScore : Option U64
  deriving DecidableEq

def manifestEntry (fields : List Text) : ManifestEntry where
  pcOffset := (strtoull 0 (cstr (fields.getD 4 []))).1
  sampleCount := (strtoull 10 (cstr (fields.getD 2 []))).1
  candidateScore := fields[7]?.map fun f => (strtoull 10 (cstr f)).1

def AggregatedHotspot.add (item : AggregatedHotspot) (e : ManifestEntry) : AggregatedHotspot :=
  ⟨item.sampleCount + e.sampleCount, item.candidateScore + e.candidateScore.getD 0,
    item.hasCandidateScore || e.candidateScore.isSome⟩

/-- `aggregated[pc_offset]` makes a zero entry if there is none. -/
def Aggregated.addEntry (t : Aggregated) (e : ManifestEntry) : Aggregated :=
  t.insert e.pcOffset (((t.lookup e.pcOffset).getD .zero).add e)

structure ManifestState where
  manifestMainBinary : Text
  aggregated : Aggregated

def mainBinaryKey : Text := "hotspot_main_binary=".toList

def hotspotKeyword : Text := "hotspot=".toList

def isHotspotLine (line : Text) : Bool := hotspotKeyword.isPrefixOf line

def hotspotFields (line : Text) : List Text := splitTab (line.drop hotspotKeyword.length)

def readManifestLine (env : LoadEnv) (s : ManifestState) (line : Text) :
    Except String ManifestState :=
  if mainBinaryKey.isPrefixOf line then
    pure { s with manifestMainBinary :=
      normalizeFilesystemPath env.realpath (line.drop mainBinaryKey.length) }
  else if isHotspotLine line = false then pure s
  else
    let fields := hotspotFields line
    if fields.length < 6 then throw "bad hotspot line in manifest"
    else
      let path := normalizeFilesystemPath env.realpath (fields.getD 5 [])
      if path ≠ [] ∧ path ≠ env.mainBinaryPath then
        throw ("targeted_rd only supports main binary hotspots; got " ++ String.ofList path)
      else pure { s with aggregated := s.aggregated.addEntry (manifestEntry fields) }

/-! ## Candidates -/

abbrev TargetCandidate := U64 × AggregatedHotspot

def AggregatedHotspot.score (item : AggregatedHotspot) : U64 :=
  if item.hasCandidateScore then item.candidateScore else item.sampleCount

def candidateBefore (a b : TargetCandidate) : Bool :=
  if a.2.score ≠ b.2.score then a.2.score > b.2.score
  else if a.2.sampleCount ≠ b.2.sampleCount then a.2.sampleCount > b.2.sampleCount
  else a.1 < b.1

def filterablePhrases : List String :=
  ["unsupported ", "watchpoint only supports accesses up to 8 bytes", "missing ", "expected ",
    "empty address operand"]

def isFilterableHotspotError (reason : String) : Bool :=
  filterablePhrases.any fun p => p.toList.isPrefixOf reason.toList

structure RejectedTarget where
  pcOffset : U64
  aggregatedSamples : U64
  reason : String
  deriving DecidableEq

def decodeTarget (env : LoadEnv) (c : TargetCandidate) : Except String HotTarget := do
  let target ← decodeTargetViaObjdump env.run env.mainBinaryPath c.1 c.2.sampleCount
  let absPc ← resolveAbsolutePc env.realpath env.mainBinaryPath c.1 env.mapsLines
  pure { target with absPc := absPc }

def uint32Max : ℕ := 2 ^ 32 - 1

structure LoadedTargets where
  targets : List HotTarget
  rejectedTargets : List RejectedTarget
  candidateTargetCount : ℕ
  capacityTruncatedTargetCount : ℕ
  deriving DecidableEq

def fillTargets (env : LoadEnv) (acc : LoadedTargets) :
    List TargetCandidate → Except String LoadedTargets
  | [] => pure acc
  | c :: rest =>
      if acc.targets.length ≥ env.bpCapacity.toNat then
        pure { acc with capacityTruncatedTargetCount := min (rest.length + 1) uint32Max }
      else
        match decodeTarget env c with
        | .ok target => fillTargets env { acc with targets := acc.targets ++ [target] } rest
        | .error reason =>
            if isFilterableHotspotError reason then
              fillTargets env { acc with
                rejectedTargets := acc.rejectedTargets ++ [⟨c.1, c.2.sampleCount, reason⟩] } rest
            else throw reason

def chooseTargets (env : LoadEnv) (candidates : List TargetCandidate) : Except String LoadedTargets :=
  if candidates = [] then throw ("no hotspots found in " ++ String.ofList env.targetFile)
  else do
    let loaded ← fillTargets env ⟨[], [], min candidates.length uint32Max, 0⟩
      (sort candidateBefore candidates)
    if loaded.targets = [] then
      if loaded.rejectedTargets ≠ [] then
        throw ("no supported hotspots remain after filtering unsupported targets from " ++
          String.ofList env.targetFile)
      else throw ("no supported hotspots found in " ++ String.ofList env.targetFile)
    else pure loaded

/-- `iterate` is the order in which the hash map gives its entries. -/
def loadTargets (env : LoadEnv) (iterate : List TargetCandidate → List TargetCandidate)
    (manifest : Text) : Except String LoadedTargets := do
  let s ← (getlines '\n' [] manifest).foldlM (readManifestLine env) ⟨[], ∅⟩
  if s.manifestMainBinary ≠ [] ∧ s.manifestMainBinary ≠ env.mainBinaryPath then
    throw "hotspot manifest main binary does not match current executable"
  else chooseTargets env (iterate (s.aggregated.entries.map fun e => (e.1, e.2)))

/-! ## Errors of the operand decoder -/

theorem isFilterable_of_phrase {phrase : String} (hmem : phrase ∈ filterablePhrases)
    {rest : List Char} {reason : String} (h : reason.toList = phrase.toList ++ rest) :
    isFilterableHotspotError reason = true := by
  unfold isFilterableHotspotError
  rw [List.any_eq_true]
  refine ⟨phrase, hmem, ?_⟩
  rw [h, List.isPrefixOf_iff_prefix]
  exact List.prefix_append _ _

theorem isFilterable_unsupported (rest : String) :
    isFilterableHotspotError ("unsupported " ++ rest) = true :=
  isFilterable_of_phrase (by decide) (String.toList_append)

theorem isFilterable_quoting (message : String) (t : Text) :
    isFilterableHotspotError (quoting ("unsupported " ++ message) t) = true := by
  unfold quoting
  rw [String.append_assoc, String.append_assoc, String.append_assoc]
  exact isFilterable_unsupported _

section Errors

variable {dec : DecodeTemplate} {e : String}

theorem parseAccessSizeFromDest_error {dest : Text} (h : parseAccessSizeFromDest dest = .error e) :
    isFilterableHotspotError e = true := by
  unfold parseAccessSizeFromDest at h
  split at h
  · cases h
    decide +kernel
  · cases h
  · cases h
  · cases h
  · cases h
  · cases h
  · cases h
  · cases h
  · cases h
    exact isFilterable_quoting "destination register class in operand" _

/-- The decoder sets the hotspot aside, or reads the address of an access of at most 8 bytes. -/
theorem decodeFromAsmOperands_cases (mnemonic operands : Text) :
    (∃ e, decodeFromAsmOperands mnemonic operands = .error e ∧
      isFilterableHotspotError e = true) ∨
    ∃ dest size items, parseAccessSizeFromDest dest = .ok size ∧ size ≤ 8 ∧
      decodeFromAsmOperands mnemonic operands = decodeAddress size items := by
  unfold decodeFromAsmOperands
  cases find operands ',' 0 with
  | none => exact Or.inl ⟨_, rfl, isFilterable_quoting "operand shape" operands⟩
  | some comma =>
      dsimp only
      cases hsize : parseAccessSizeFromDest (trimAsciiSpace (operands.take comma)) with
      | error e => exact Or.inl ⟨e, rfl, parseAccessSizeFromDest_error hsize⟩
      | ok size =>
          dsimp only [bind, Except.bind]
          by_cases hwide : size > 8
          · rw [if_pos hwide]
            exact Or.inl ⟨_, rfl, by decide +kernel⟩
          rw [if_neg hwide]
          cases find operands '[' comma with
          | none => exact Or.inl ⟨_, rfl, isFilterable_quoting "address operand" operands⟩
          | some lb =>
              dsimp only
              cases find operands ']' lb with
              | none => exact Or.inl ⟨_, rfl, isFilterable_quoting "address operand" operands⟩
              | some rb =>
                  dsimp only
                  split_ifs
                  · exact Or.inl ⟨_, rfl, isFilterable_quoting "address operand" operands⟩
                  · exact Or.inr ⟨_, size, _, hsize, not_lt.mp hwide, rfl⟩

end Errors

/-! ## Reading the manifest -/

section Reading

variable {env : LoadEnv} {s s' : ManifestState} {lines lines' : List Text}

def GoodLine (env : LoadEnv) (line : Text) : Prop :=
  isHotspotLine line = true → 6 ≤ (hotspotFields line).length ∧
    (normalizeFilesystemPath env.realpath ((hotspotFields line).getD 5 []) = [] ∨
      normalizeFilesystemPath env.realpath ((hotspotFields line).getD 5 []) = env.mainBinaryPath)

def manifestEntries (lines : List Text) : List ManifestEntry :=
  (lines.filter isHotspotLine).map fun line => manifestEntry (hotspotFields line)

def mainBinaryAfter (env : LoadEnv) (path : Text) (lines : List Text) : Text :=
  lines.foldl (fun path line =>
    if mainBinaryKey.isPrefixOf line then
      normalizeFilesystemPath env.realpath (line.drop mainBinaryKey.length)
    else path) path

theorem not_mainBinaryKey_of_hotspot {line : Text} (h : isHotspotLine line = true) :
    mainBinaryKey.isPrefixOf line = false := by
  rw [isHotspotLine, List.isPrefixOf_iff_prefix] at h
  obtain ⟨rest, rfl⟩ := h
  rfl

theorem readManifestLine_cases (env : LoadEnv) (s : ManifestState) (line : Text) :
    (∃ s', readManifestLine env s line = .ok s' ∧ GoodLine env line ∧
        s'.manifestMainBinary = mainBinaryAfter env s.manifestMainBinary [line] ∧
        s'.aggregated = (manifestEntries [line]).foldl Aggregated.addEntry s.aggregated) ∨
      ∃ e, readManifestLine env s line = .error e ∧ ¬ GoodLine env line := by
  unfold readManifestLine
  by_cases hhot : isHotspotLine line = true
  · have hkey := not_mainBinaryKey_of_hotspot hhot
    have hmain : mainBinaryAfter env s.manifestMainBinary [line] = s.manifestMainBinary := by
      unfold mainBinaryAfter
      rw [List.foldl_cons, List.foldl_nil, if_neg (by simp [hkey])]
    have hentries : manifestEntries [line] = [manifestEntry (hotspotFields line)] := by
      unfold manifestEntries
      rw [List.filter_cons_of_pos hhot]
      rfl
    rw [if_neg (by simp [hkey]), if_neg (by simp [hhot])]
    dsimp only
    split_ifs with hlen hpath
    · refine .inr ⟨_, rfl, fun hgood => ?_⟩
      have := (hgood hhot).1
      omega
    · refine .inr ⟨_, rfl, fun hgood => ?_⟩
      rcases (hgood hhot).2 with hp | hp
      · exact hpath.1 hp
      · exact hpath.2 hp
    · refine .inl ⟨_, rfl, fun _ => ⟨by omega, ?_⟩, hmain.symm, by rw [hentries]; rfl⟩
      by_contra hp
      rw [not_or] at hp
      exact hpath hp
  · have hentries : manifestEntries [line] = [] := by
      unfold manifestEntries
      rw [List.filter_cons_of_neg hhot]
      rfl
    have hgood : GoodLine env line := fun h => absurd h hhot
    by_cases hkey : mainBinaryKey.isPrefixOf line = true
    · rw [if_pos hkey]
      refine .inl ⟨_, rfl, hgood, ?_, by rw [hentries]; rfl⟩
      unfold mainBinaryAfter
      rw [List.foldl_cons, List.foldl_nil, if_pos hkey]
    · rw [if_neg hkey, if_pos (by simpa using hhot)]
      refine .inl ⟨_, rfl, hgood, ?_, by rw [hentries]; rfl⟩
      unfold mainBinaryAfter
      rw [List.foldl_cons, List.foldl_nil, if_neg hkey]

/-- Reading succeeds on good lines only, and then adds up their entries. -/
theorem foldlM_readManifestLine :
    (∃ s', lines.foldlM (readManifestLine env) s = .ok s' ∧ (∀ line ∈ lines, GoodLine env line) ∧
        s'.manifestMainBinary = mainBinaryAfter env s.manifestMainBinary lines ∧
        s'.aggregated = (manifestEntries lines).foldl Aggregated.addEntry s.aggregated) ∨
      ∃ e, lines.foldlM (readManifestLine env) s = .error e ∧
        ¬ ∀ line ∈ lines, GoodLine env line := by
  induction lines generalizing s with
  | nil => exact .inl ⟨s, rfl, by simp, rfl, rfl⟩
  | cons line lines ih =>
      rw [List.foldlM_cons, List.forall_mem_cons]
      obtain ⟨s₁, hs₁, hgood, hmain, hagg⟩ | ⟨e, he, hbad⟩ := readManifestLine_cases env s line
      · rw [hs₁]
        have hsplit : manifestEntries (line :: lines) =
            manifestEntries [line] ++ manifestEntries lines := by
          unfold manifestEntries
          rw [← List.map_append, ← List.filter_append]
          rfl
        obtain ⟨s₂, hs₂, hgoods, hmain₂, hagg₂⟩ | ⟨e, he, hbad⟩ := @ih s₁
        · refine .inl ⟨s₂, hs₂, ⟨hgood, hgoods⟩, ?_, ?_⟩
          · rw [hmain₂, hmain]
            rfl
          · rw [hagg₂, hagg, hsplit, List.foldl_append]
        · exact .inr ⟨e, he, fun h => hbad h.2⟩
      · rw [he]
        exact .inr ⟨e, rfl, fun h => hbad h.1⟩

end Reading

/-! ## Sums by offset -/

def aggregate (entries : List ManifestEntry) (o : U64) : AggregatedHotspot :=
  (entries.filter fun e => e.pcOffset = o).foldl .add .zero

def candidates (entries : List ManifestEntry) : List TargetCandidate :=
  (entries.map ManifestEntry.pcOffset).dedup.map fun o => (o, aggregate entries o)

def candidateOrder (entries : List ManifestEntry) : List TargetCandidate :=
  sort candidateBefore (candidates entries)

section Sums

variable {entries entries' : List ManifestEntry} {o : U64}

theorem lookup_addEntry (t : Aggregated) (e : ManifestEntry) (o : U64) :
    (t.addEntry e).lookup o =
      if e.pcOffset = o then some (((t.lookup o).getD .zero).add e) else t.lookup o := by
  unfold Aggregated.addEntry
  by_cases h : e.pcOffset = o
  · subst h
    rw [if_pos rfl, AList.lookup_insert]
  · rw [if_neg h, AList.lookup_insert_ne (Ne.symm h)]

theorem lookup_foldl_addEntry (t : Aggregated) (o : U64) :
    (entries.foldl Aggregated.addEntry t).lookup o =
      if o ∈ entries.map ManifestEntry.pcOffset then
        some ((entries.filter fun e => e.pcOffset = o).foldl .add ((t.lookup o).getD .zero))
      else t.lookup o := by
  induction entries generalizing t with
  | nil => rfl
  | cons e entries ih =>
      rw [List.foldl_cons, ih, lookup_addEntry, List.map_cons]
      by_cases he : e.pcOffset = o
      · subst he
        rw [if_pos rfl, if_pos List.mem_cons_self, List.filter_cons_of_pos (by simp),
          List.foldl_cons, Option.getD_some]
        split_ifs with hmem
        · rfl
        · have hnil : entries.filter (fun e' => e'.pcOffset = e.pcOffset) = [] := by
            rw [List.filter_eq_nil_iff]
            intro e' he' heq
            exact hmem (List.mem_map.mpr ⟨e', he', of_decide_eq_true heq⟩)
          rw [hnil, List.foldl_nil]
      · rw [if_neg he, List.filter_cons_of_neg (by simpa using he)]
        have hiff : o ∈ e.pcOffset :: entries.map ManifestEntry.pcOffset ↔
            o ∈ entries.map ManifestEntry.pcOffset := by
          rw [List.mem_cons]
          exact or_iff_right (Ne.symm he)
        simp only [hiff]

theorem candidates_offsets (entries : List ManifestEntry) :
    (candidates entries).map Prod.fst = (entries.map ManifestEntry.pcOffset).dedup := by
  unfold candidates
  rw [List.map_map]
  exact List.map_id _

theorem nodup_candidates_offsets (entries : List ManifestEntry) :
    ((candidates entries).map Prod.fst).Nodup := by
  rw [candidates_offsets]
  exact List.nodup_dedup _

/-- The hash map holds the candidates, in some order. -/
theorem entries_perm_candidates (entries : List ManifestEntry) :
    ((entries.foldl Aggregated.addEntry ∅).entries.map fun e => (e.1, e.2)).Perm
      (candidates entries) := by
  have hkeys : (((entries.foldl Aggregated.addEntry ∅).entries.map fun e => (e.1, e.2)).map
      Prod.fst).Nodup := by
    rw [List.map_map]
    exact (entries.foldl Aggregated.addEntry ∅).nodupKeys
  rw [List.perm_ext_iff_of_nodup hkeys.of_map (nodup_candidates_offsets entries).of_map]
  rintro ⟨o, item⟩
  have hlook : (o, item) ∈ (entries.foldl Aggregated.addEntry ∅).entries.map
      (fun e => (e.1, e.2)) ↔ (entries.foldl Aggregated.addEntry ∅).lookup o = some item := by
    rw [← Option.mem_def, AList.mem_lookup_iff, List.mem_map]
    constructor
    · rintro ⟨⟨o', item'⟩, hmem, heq⟩
      cases heq
      exact hmem
    · exact fun hmem => ⟨_, hmem, rfl⟩
  rw [hlook, lookup_foldl_addEntry]
  unfold candidates aggregate
  simp only [List.mem_map, List.mem_dedup, Prod.mk.injEq, AList.lookup_empty, Option.getD_none]
  split_ifs with hmem
  · rw [Option.some.injEq]
    constructor
    · exact fun h => ⟨o, hmem, rfl, h⟩
    · rintro ⟨o', -, rfl, h⟩
      exact h
  · constructor
    · intro h
      cases h
    · rintro ⟨o', ho', rfl, -⟩
      exact absurd ho' hmem

theorem aggregate_perm (h : entries.Perm entries') (o : U64) :
    aggregate entries o = aggregate entries' o := by
  have hcomm : RightCommutative AggregatedHotspot.add := by
    constructor
    intro item e e'
    unfold AggregatedHotspot.add
    rw [AggregatedHotspot.mk.injEq]
    refine ⟨?_, ?_, Bool.or_right_comm _ _ _⟩
    · grind
    · grind
  exact (h.filter _).foldl_eq _

theorem candidates_perm (h : entries.Perm entries') :
    (candidates entries).Perm (candidates entries') := by
  unfold candidates
  have hsame : (fun o => (o, aggregate entries o)) = fun o => (o, aggregate entries' o) := by
    funext o
    rw [aggregate_perm h]
  rw [hsame]
  exact (h.map _).dedup.map _

end Sums

/-! ## The order of candidates -/

def candidateKey (c : TargetCandidate) : ℕᵒᵈ ×ₗ ℕᵒᵈ ×ₗ ℕ :=
  toLex (OrderDual.toDual c.2.score.toNat,
    toLex (OrderDual.toDual c.2.sampleCount.toNat, c.1.toNat))

theorem candidateBefore_byKey : ByKey candidateBefore candidateKey := by
  intro a b
  unfold candidateBefore candidateKey
  simp only [Prod.Lex.toLex_lt_toLex, OrderDual.toDual_lt_toDual, EmbeddingLike.apply_eq_iff_eq,
    ne_eq, ← BitVec.toNat_inj, gt_iff_lt, BitVec.lt_def]
  split_ifs with h1 h2
  all_goals simp only [decide_eq_true_eq]
  all_goals omega

theorem nodup_candidateKey {l : List TargetCandidate} (h : (l.map Prod.fst).Nodup) :
    (l.map candidateKey).Nodup := by
  have hinj : ∀ a b : TargetCandidate, candidateKey a = candidateKey b → a.1 = b.1 := by
    intro a b hab
    unfold candidateKey at hab
    simp only [EmbeddingLike.apply_eq_iff_eq, Prod.mk.injEq] at hab
    exact BitVec.eq_of_toNat_eq hab.2.2
  unfold List.Nodup at h ⊢
  rw [List.pairwise_map] at h ⊢
  exact h.imp fun {a b} hne hab => hne (hinj a b hab)

/-- Neither the order of the lines nor the iteration order of the map shows. -/
theorem sort_eq_candidateOrder {entries : List ManifestEntry} {l : List TargetCandidate}
    (h : l.Perm (candidates entries)) : sort candidateBefore l = candidateOrder entries :=
  (sort_eq_of_perm candidateBefore_byKey (nodup_candidateKey (nodup_candidates_offsets entries))
    h.symm).symm

end RdSpeTool
