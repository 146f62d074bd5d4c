import Mathlib.Data.Prod.Lex
import Mathlib.Data.Rat.Defs
import Mathlib.Tactic
import RdSpeTool.PyText

/-!
# Matching call paths with their cost

`join_pair_context_perf_cost.py` looks for the perf call path that fits a list of function names
best. Names are normalised by regular expressions; a candidate is scored by its common prefix, a
few heuristics and its share of the cost. Scores are exact rationals here.
-/

namespace RdSpeTool.PerfMatch

open PyText
open CText (digitValue)

abbrev Name := List Char

/-! ## Names -/

/-- `$`: the end of the text or of its last line. -/
def atEnd (s : Name) : Bool := s = [] ∨ s = ['\n']

/-- Deletes a match of `^\[[^\]]+\]\s+`. -/
def dropLeadingTag : Name → Name
  | '[' :: t =>
      match t.dropWhile (· ≠ ']') with
      | ']' :: rest =>
          if t.takeWhile (· ≠ ']') = [] ∨ rest.takeWhile isspace = [] then '[' :: t
          else rest.dropWhile isspace
      | _ => '[' :: t
  | s => s

/-- The rest behind a match of `\s+\[[^\]]+\]$` at the start. -/
def matchTrailingTag (s : Name) : Option Name :=
  if s.takeWhile isspace = [] then none
  else
    match s.dropWhile isspace with
    | '[' :: t =>
        match t.dropWhile (· ≠ ']') with
        | ']' :: rest => if t.takeWhile (· ≠ ']') = [] ∨ atEnd rest = false then none else some rest
        | _ => none
    | _ => none

/-- The rest behind a match of `\s+at 0x[0-9a-fA-F]+.*$` at the start. -/
def matchAddress (s : Name) : Option Name :=
  if s.takeWhile isspace = [] then none
  else
    match s.dropWhile isspace with
    | 'a' :: 't' :: ' ' :: '0' :: 'x' :: t =>
        if t.takeWhile (digitValue · < 16) = [] then none
        else
          let rest := t.dropWhile (· ≠ '\n')
          if atEnd rest then some rest else none
    | _ => none

/-- Deletes the first match of a pattern that ends in `$` and so has no second one. -/
def deleteMatch (pattern : Name → Option Name) : Name → Name
  | [] => []
  | c :: s =>
      match pattern (c :: s) with
      | some rest => rest
      | none => c :: deleteMatch pattern s

def normalizeName (name : Name) : Name :=
  strip (deleteMatch matchAddress (deleteMatch matchTrailingTag (dropLeadingTag (strip name))))

/-! ## Comparing paths -/

def commonPrefixLen : List Name → List Name → ℕ
  | a :: left, b :: right =>
      if normalizeName a ≠ normalizeName b then 0 else commonPrefixLen left right + 1
  | _, _ => 0

/-- The scan of `ordered_overlap_count`; `right` is what lies behind the position. -/
def orderedOverlapCount : List Name → List Name → ℕ
  | [], _ => 0
  | name :: left, right =>
      match right.dropWhile (· ≠ name) with
      | [] => 0
      | _ :: rest => orderedOverlapCount left rest + 1

structure PerfEntry where
  symbol : Name
  callpathFrames : List Name
  childrenPercent : ℚ
  selfPercent : ℚ
  callpathId : ℤ
  callpathText : Name
  branchIndex : ℤ

def PerfEntry.frames (e : PerfEntry) : List Name :=
  let frames := (e.callpathFrames.map normalizeName).filter (· ≠ [])
  let symbol := normalizeName e.symbol
  if symbol ≠ [] ∧ (frames = [] ∨ frames.head? ≠ some symbol) then symbol :: frames else frames

def PerfEntry.percent (e : PerfEntry) : ℚ := max e.childrenPercent e.selfPercent

inductive MatchStatus
  | unmatched
  | matched
  deriving DecidableEq

structure PerfResult where
  percent : ℚ
  confidence : ℚ
  callpathId : ℤ
  status : MatchStatus
  callpathText : Name
  branchIndex : Option ℤ
  deriving DecidableEq

def unmatched : PerfResult := ⟨0, 0, 0, .unmatched, [], none⟩

def PerfEntry.result (e : PerfEntry) (confidence : ℚ) : PerfResult :=
  ⟨e.percent, confidence, e.callpathId, .matched, e.callpathText, some e.branchIndex⟩

def hasMainPath (names : List Name) : Bool :=
  names.contains ['m', 'a', 'i', 'n'] ||
    names.contains ['G', 'O', 'M', 'P', '_', 'p', 'a', 'r', 'a', 'l', 'l', 'e', 'l']

def hasWorkerEntry (names : List Name) : Bool :=
  names.contains ['s', 't', 'a', 'r', 't', '_', 't', 'h', 'r', 'e', 'a', 'd'] ||
    names.contains ['t', 'h', 'r', 'e', 'a', 'd', '_', 's', 't', 'a', 'r', 't']

def hasOmpCaller (funcs : List Name) : Bool :=
  (funcs.drop 1).any fun fn => ['o', 'm', 'p'] <:+: fn.map Char.toLower

/-- The confidence of an entry with the same leaf: the share of the common prefix, raised and
capped by the heuristics in the order of the source. -/
def confidenceOf (funcs frames : List Name) : ℚ :=
  let common := commonPrefixLen funcs frames
  let overlap := orderedOverlapCount funcs frames
  let c : ℚ := common / funcs.length
  let c := if hasOmpCaller funcs ∧ hasWorkerEntry frames ∧ ¬ hasMainPath funcs then max c (17 / 20)
    else c
  let c := if hasMainPath funcs ∧ hasMainPath frames then max c (17 / 20) else c
  let c := if overlap = funcs.length then max c (3 / 4) else c
  if common = 1 ∧ funcs.length > 1 ∧ c < 3 / 4 then min c (7 / 20) else c

def considerEntry (funcs : List Name) (best : PerfResult) (entry : PerfEntry) : PerfResult :=
  let frames := entry.frames
  if frames = [] then best
  else if funcs.head? ≠ frames.head? then best
  else
    let confidence := confidenceOf funcs frames
    if confidence ≤ 0 then best
    else if toLex (best.confidence, best.percent) < toLex (confidence, entry.percent) then
      entry.result confidence
    else best

def normalizedFunctions (functionsLeafToRoot : List Name) : List Name :=
  (functionsLeafToRoot.map normalizeName).filter fun fn => fn ≠ [] ∧ fn ≠ ['?', '?']

def bestPerfMatch (functionsLeafToRoot : List Name) (perfEntries : List PerfEntry) : PerfResult :=
  let funcs := normalizedFunctions functionsLeafToRoot
  if funcs = [] then unmatched else perfEntries.foldl (considerEntry funcs) unmatched

/-! ## Prefixes and subsequences -/

theorem commonPrefixLen_le (left right : List Name) :
    commonPrefixLen left right ≤ left.length := by
  induction left generalizing right with
  | nil => simp [commonPrefixLen]
  | cons a left ih =>
      cases right with
      | nil => simp [commonPrefixLen]
      | cons b right =>
          rw [commonPrefixLen]
          split_ifs
          · exact Nat.zero_le _
          · exact Nat.succ_le_succ (ih right)

theorem commonPrefixLen_eq_length {left right : List Name} (h : left <+: right) :
    commonPrefixLen left right = left.length := by
  induction left generalizing right with
  | nil => simp [commonPrefixLen]
  | cons a left ih =>
      obtain ⟨rest, rfl⟩ := h
      rw [List.cons_append, commonPrefixLen, if_neg (not_not.mpr rfl),
        ih (List.prefix_append left rest), List.length_cons]

/-- Skipping to the first occurrence keeps every subsequence that starts with the name. -/
theorem cons_sublist_iff_dropWhile {name : Name} {left right : List Name} :
    (name :: left).Sublist right ↔
      ∃ rest, right.dropWhile (· ≠ name) = name :: rest ∧ left.Sublist rest := by
  induction right with
  | nil => simp
  | cons b right ih =>
      by_cases hb : b = name
      · subst hb
        rw [List.dropWhile_cons_of_neg (by simp), List.cons_sublist_cons]
        simp
      · rw [List.dropWhile_cons_of_pos (by simpa using hb), ← ih]
        constructor
        · intro h
          cases h with
          | cons _ h => exact h
          | cons_cons _ h => exact absurd rfl hb
        · exact List.Sublist.cons b

/-- The greedy scan finds the whole list exactly when it is a subsequence. -/
theorem orderedOverlapCount_eq_length_iff (left right : List Name) :
    orderedOverlapCount left right = left.length ↔ left.Sublist right := by
  induction left generalizing right with
  | nil => simp [orderedOverlapCount]
  | cons name left ih =>
      rw [cons_sublist_iff_dropWhile, orderedOverlapCount]
      cases hdrop : right.dropWhile (· ≠ name) with
      | nil => simp
      | cons b rest =>
          have hb : b = name := by
            have hhead := List.head?_dropWhile_not (· ≠ name) right
            rw [hdrop] at hhead
            simpa using hhead
          subst hb
          simp [ih]

/-! ## Confidence -/

section Confidence

variable {funcs : List Name}

theorem share_le_one (funcs frames : List Name) :
    (commonPrefixLen funcs frames : ℚ) / funcs.length ≤ 1 := by
  apply div_le_one_of_le₀
  · exact_mod_cast commonPrefixLen_le funcs frames
  · exact Nat.cast_nonneg _

theorem share_eq_one_iff (h : funcs ≠ []) (frames : List Name) :
    (commonPrefixLen funcs frames : ℚ) / funcs.length = 1 ↔
      commonPrefixLen funcs frames = funcs.length := by
  have hpos : (funcs.length : ℚ) ≠ 0 := by
    have := List.length_pos_iff.mpr h
    positivity
  rw [div_eq_one_iff_eq hpos]
  exact_mod_cast Iff.rfl

/-- A heuristic that raises a confidence does not reach 1. -/
theorem raise_eq_one_iff {p : Prop} [Decidable p] {c k : ℚ} (hc : c ≤ 1) (hk : k < 1) :
    (if p then max c k else c) ≤ 1 ∧ ((if p then max c k else c) = 1 ↔ c = 1) := by
  split_ifs
  · refine ⟨max_le hc hk.le, ?_⟩
    constructor
    · intro h
      rcases max_choice c k with hm | hm
      · exact hm.symm.trans h
      · exact absurd (hm.symm.trans h) hk.ne
    · rintro rfl
      exact max_eq_left hk.le
  · exact ⟨hc, Iff.rfl⟩

/-- The cap on leaf-only matches does not touch 1. -/
theorem cap_eq_one_iff {p q : Prop} [Decidable p] [Decidable q] {c : ℚ} (hc : c ≤ 1) :
    (if p ∧ q ∧ c < 3 / 4 then min c (7 / 20) else c) ≤ 1 ∧
      ((if p ∧ q ∧ c < 3 / 4 then min c (7 / 20) else c) = 1 ↔ c = 1) := by
  have hlt : (7 : ℚ) / 20 < 1 := by norm_num
  split_ifs with hcap
  · refine ⟨(min_le_left _ _).trans hc, ?_⟩
    constructor
    · intro hone
      exact absurd hone ((min_le_right _ _).trans_lt hlt).ne
    · rintro rfl
      exact absurd hcap.2.2 (by norm_num)
  · exact ⟨hc, Iff.rfl⟩

/-- The confidence is 1 exactly for an exact path; no heuristic gets there. -/
theorem confidenceOf_eq_one_iff (h : funcs ≠ []) (frames : List Name) : confidenceOf funcs frames ≤ 1 ∧
    (confidenceOf funcs frames = 1 ↔ commonPrefixLen funcs frames = funcs.length) := by
  have h0 := share_le_one funcs frames
  have hiff := share_eq_one_iff h frames
  unfold confidenceOf
  dsimp only
  generalize (commonPrefixLen funcs frames : ℚ) / funcs.length = c at h0 hiff ⊢
  obtain ⟨h1, e1⟩ := raise_eq_one_iff (p := hasOmpCaller funcs ∧ hasWorkerEntry frames ∧
    ¬ hasMainPath funcs) (k := 17 / 20) h0 (by norm_num)
  obtain ⟨h2, e2⟩ := raise_eq_one_iff (p := hasMainPath funcs ∧ hasMainPath frames) (k := 17 / 20)
    h1 (by norm_num)
  obtain ⟨h3, e3⟩ := raise_eq_one_iff (p := orderedOverlapCount funcs frames = funcs.length)
    (k := 3 / 4) h2 (by norm_num)
  rw [← hiff, ← e1, ← e2, ← e3]
  exact cap_eq_one_iff h3

end Confidence

/-! ## The choice -/

def PerfResult.score (r : PerfResult) : ℚ ×ₗ ℚ := toLex (r.confidence, r.percent)

/-- The result an entry offers; nothing if the loop passes it over. -/
def candidate (funcs : List Name) (e : PerfEntry) : Option PerfResult :=
  if e.frames ≠ [] ∧ funcs.head? = e.frames.head? ∧ 0 < confidenceOf funcs e.frames then
    some (e.result (confidenceOf funcs e.frames))
  else none

theorem considerEntry_eq (funcs : List Name) (best : PerfResult) (e : PerfEntry) :
    considerEntry funcs best e =
      match candidate funcs e with
      | none => best
      | some r => if best.score < r.score then r else best := by
  unfold considerEntry candidate
  by_cases hframes : e.frames = []
  · simp [hframes]
  by_cases hleaf : funcs.head? = e.frames.head?
  · by_cases hpos : 0 < confidenceOf funcs e.frames
    · have hnot : ¬ confidenceOf funcs e.frames ≤ 0 := not_le.mpr hpos
      simp only [hframes, hleaf, hpos, hnot, ne_eq, not_true_eq_false, not_false_eq_true, and_self,
        if_true, if_false]
      rfl
    · have hle : confidenceOf funcs e.frames ≤ 0 := not_lt.mp hpos
      simp only [hframes, hleaf, hpos, hle, ne_eq, not_true_eq_false, and_false, if_true, if_false]
  · simp only [hframes, hleaf, ne_eq, not_false_eq_true, false_and, and_false, if_true, if_false]

/-- The loop keeps the best score it has seen. -/
theorem foldl_considerEntry (funcs : List Name) (entries : List PerfEntry) (best : PerfResult) :
    (entries.foldl (considerEntry funcs) best = best ∨
      ∃ e ∈ entries, candidate funcs e = some (entries.foldl (considerEntry funcs) best)) ∧
    best.score ≤ (entries.foldl (considerEntry funcs) best).score ∧
    ∀ e ∈ entries, ∀ r, candidate funcs e = some r →
      r.score ≤ (entries.foldl (considerEntry funcs) best).score := by
  induction entries generalizing best with
  | nil => exact ⟨.inl rfl, le_rfl, fun e he => absurd he (by simp)⟩
  | cons e entries ih =>
      obtain ⟨hfrom, hstart, hall⟩ := ih (considerEntry funcs best e)
      -- the round keeps `best` or takes what the entry offers, whichever scores higher
      have hround : (considerEntry funcs best e = best ∨
          candidate funcs e = some (considerEntry funcs best e)) ∧
          best.score ≤ (considerEntry funcs best e).score ∧
          ∀ r, candidate funcs e = some r → r.score ≤ (considerEntry funcs best e).score := by
        rw [considerEntry_eq]
        cases hc : candidate funcs e with
        | none => exact ⟨.inl rfl, le_rfl, fun r hr => absurd hr (by simp)⟩
        | some r =>
            dsimp only
            split_ifs with hlt
            · refine ⟨.inr rfl, hlt.le, ?_⟩
              intro r' hr'
              rw [Option.some.inj hr']
            · refine ⟨.inl rfl, le_rfl, ?_⟩
              intro r' hr'
              rw [← Option.some.inj hr']
              exact not_lt.mp hlt
      obtain ⟨hone, hbest, hthis⟩ := hround
      rw [List.foldl_cons]
      refine ⟨?_, hbest.trans hstart, ?_⟩
      · rcases hfrom with hkeep | ⟨e', he', hr⟩
        · rw [hkeep]
          rcases hone with hone | hone
          · exact .inl hone
          · exact .inr ⟨e, List.mem_cons_self, hone⟩
        · exact .inr ⟨e', List.mem_cons_of_mem _ he', hr⟩
      · intro e' he' r hr
        rcases List.mem_cons.mp he' with rfl | hmem
        · exact (hthis r hr).trans hstart
        · exact hall e' hmem r hr

theorem score_of_candidate {funcs : List Name} {e : PerfEntry} {r : PerfResult}
    (h : candidate funcs e = some r) : r = e.result (confidenceOf funcs e.frames) ∧
      funcs.head? = e.frames.head? ∧ 0 < confidenceOf funcs e.frames := by
  unfold candidate at h
  split_ifs at h with hc
  exact ⟨(Option.some.inj h).symm, hc.2⟩

section Best

variable {fns : List Name} {entries : List PerfEntry}

theorem bestPerfMatch_eq (h : normalizedFunctions fns ≠ []) :
    bestPerfMatch fns entries =
      entries.foldl (considerEntry (normalizedFunctions fns)) unmatched := by
  unfold bestPerfMatch
  dsimp only
  rw [if_neg h]

theorem unmatched_lt_of_candidate {funcs : List Name} {e : PerfEntry} {r : PerfResult}
    (h : candidate funcs e = some r) : unmatched.score < r.score := by
  obtain ⟨rfl, -, hpos⟩ := score_of_candidate h
  exact Prod.Lex.toLex_lt_toLex.mpr (.inl hpos)

/-- The result is a best offer, or there was none. -/
theorem bestPerfMatch_max (h : normalizedFunctions fns ≠ []) (entries : List PerfEntry) :
    ((bestPerfMatch fns entries = unmatched ∧
        ∀ e ∈ entries, candidate (normalizedFunctions fns) e = none) ∨
      ∃ e ∈ entries, candidate (normalizedFunctions fns) e = some (bestPerfMatch fns entries)) ∧
    ∀ e ∈ entries, ∀ r, candidate (normalizedFunctions fns) e = some r →
      r.score ≤ (bestPerfMatch fns entries).score := by
  rw [bestPerfMatch_eq h]
  obtain ⟨hfrom, -, hall⟩ := foldl_considerEntry (normalizedFunctions fns) entries unmatched
  refine ⟨?_, hall⟩
  rcases hfrom with hkeep | hfound
  · refine .inl ⟨hkeep, ?_⟩
    intro e he
    cases hc : candidate (normalizedFunctions fns) e with
    | none => rfl
    | some r =>
        have hle := hall e he r hc
        rw [hkeep] at hle
        exact absurd (unmatched_lt_of_candidate hc) (not_lt.mpr hle)
  · exact .inr hfound

theorem bestPerfMatch_perm (h : normalizedFunctions fns ≠ []) {entries' : List PerfEntry}
    (hperm : entries.Perm entries') :
    (bestPerfMatch fns entries).score = (bestPerfMatch fns entries').score := by
  -- each result is offered in the other list, too
  have hle : ∀ {l l' : List PerfEntry}, l.Perm l' →
      (bestPerfMatch fns l).score ≤ (bestPerfMatch fns l').score := by
    intro l l' hp
    obtain ⟨hfrom, -⟩ := bestPerfMatch_max h l
    obtain ⟨hfrom', hall'⟩ := bestPerfMatch_max h l'
    rcases hfrom with ⟨hnone, -⟩ | ⟨e, he, hc⟩
    · rw [hnone]
      rcases hfrom' with ⟨hnone', -⟩ | ⟨e', -, hc'⟩
      · rw [hnone']
      · exact (unmatched_lt_of_candidate hc').le
    · exact hall' e (hp.mem_iff.mp he) _ hc
  exact le_antisymm (hle hperm) (hle hperm.symm)

/-- What an entry with the leaf of the list and the whole list as common prefix offers. -/
theorem candidate_of_exact (h : normalizedFunctions fns ≠ []) {e : PerfEntry}
    (hleaf : (normalizedFunctions fns).head? = e.frames.head?)
    (hlen : commonPrefixLen (normalizedFunctions fns) e.frames = (normalizedFunctions fns).length) :
    candidate (normalizedFunctions fns) e = some (e.result 1) := by
  have hone := (confidenceOf_eq_one_iff h e.frames).2.mpr hlen
  have hframes : e.frames ≠ [] := by
    intro hnil
    rw [hnil, List.head?_nil, List.head?_eq_none_iff] at hleaf
    exact h hleaf
  unfold candidate
  rw [if_pos ⟨hframes, hleaf, by rw [hone]; norm_num⟩, hone]

theorem bestPerfMatch_exact (h : normalizedFunctions fns ≠ [])
    (hexact : ∃ e ∈ entries, normalizedFunctions fns <+: e.frames) :
    ∃ e ∈ entries, bestPerfMatch fns entries = e.result 1 ∧
      (normalizedFunctions fns).head? = e.frames.head? ∧
      commonPrefixLen (normalizedFunctions fns) e.frames = (normalizedFunctions fns).length ∧
      ∀ e' ∈ entries, (normalizedFunctions fns).head? = e'.frames.head? →
        commonPrefixLen (normalizedFunctions fns) e'.frames = (normalizedFunctions fns).length →
        e'.percent ≤ e.percent := by
  obtain ⟨hfrom, hall⟩ := bestPerfMatch_max h entries
  obtain ⟨e₀, he₀, hinit⟩ := hexact
  have hleaf₀ : (normalizedFunctions fns).head? = e₀.frames.head? := by
    obtain ⟨f, rest, hcons⟩ := List.exists_cons_of_ne_nil h
    obtain ⟨tail, htail⟩ := hinit
    rw [← htail, hcons]
    rfl
  have hoffer := candidate_of_exact h hleaf₀ (commonPrefixLen_eq_length hinit)
  rcases hfrom with ⟨-, hnone⟩ | ⟨e, he, hc⟩
  · rw [hnone e₀ he₀] at hoffer
    cases hoffer
  obtain ⟨hresult, hleaf, -⟩ := score_of_candidate hc
  have hconf := confidenceOf_eq_one_iff h e.frames
  -- the exact entry scores at least 1, and nothing scores more
  have hone : confidenceOf (normalizedFunctions fns) e.frames = 1 := by
    have hle := hall e₀ he₀ _ hoffer
    rw [hresult] at hle
    rcases Prod.Lex.toLex_le_toLex.mp hle with hlt | ⟨heq, -⟩
    · exact absurd hlt (not_lt.mpr hconf.1)
    · exact heq.symm
  rw [hone] at hresult
  refine ⟨e, he, hresult, hleaf, hconf.2.mp hone, ?_⟩
  intro e' he' hleaf' hlen'
  have hle := hall e' he' _ (candidate_of_exact h hleaf' hlen')
  rw [hresult] at hle
  rcases Prod.Lex.toLex_le_toLex.mp hle with hlt | ⟨-, hpct⟩
  · exact absurd hlt (lt_irrefl 1)
  · exact hpct

end Best

/-- An exact path is preferred: with one among the entries, the result is an entry with the leaf of
the function list and the whole list as common prefix, and none of these costs more. The score of
the result is the best on offer, whatever the order of the entries, and the greedy scan decides
containment as a subsequence. -/
theorem best_perf_match_prefers_exact :
    (∀ (fns : List Name) (entries : List PerfEntry), normalizedFunctions fns ≠ [] →
      ((∃ e ∈ entries, normalizedFunctions fns <+: e.frames) →
        ∃ e ∈ entries, bestPerfMatch fns entries = e.result 1 ∧
          (normalizedFunctions fns).head? = e.frames.head? ∧
          commonPrefixLen (normalizedFunctions fns) e.frames = (normalizedFunctions fns).length ∧
          ∀ e' ∈ entries, (normalizedFunctions fns).head? = e'.frames.head? →
            commonPrefixLen (normalizedFunctions fns) e'.frames =
              (normalizedFunctions fns).length → e'.percent ≤ e.percent) ∧
      ((bestPerfMatch fns entries = unmatched ∧
          ∀ e ∈ entries, candidate (normalizedFunctions fns) e = none) ∨
        ∃ e ∈ entries, candidate (normalizedFunctions fns) e = some (bestPerfMatch fns entries)) ∧
      (∀ e ∈ entries, ∀ r, candidate (normalizedFunctions fns) e = some r →
        r.score ≤ (bestPerfMatch fns entries).score) ∧
      ∀ entries', entries.Perm entries' →
        (bestPerfMatch fns entries).score = (bestPerfMatch fns entries').score) ∧
    ∀ left right : List Name,
      orderedOverlapCount left right = left.length ↔ left.Sublist right := by
  refine ⟨?_, orderedOverlapCount_eq_length_iff⟩
  intro fns entries h
  obtain ⟨hfrom, hall⟩ := bestPerfMatch_max h entries
  exact ⟨bestPerfMatch_exact h, hfrom, hall, fun entries' hperm => bestPerfMatch_perm h hperm⟩

def pathEntry (callers : List Name) (percent : ℚ) : PerfEntry :=
  ⟨['f'], callers, percent, 0, 1, ['f'], 0⟩

/-- Two paths begin with the functions; a third one, which costs more, is raised for its `main`. -/
theorem best_perf_match_prefers_exact_small :
    bestPerfMatch [['f'], ['m', 'a', 'i', 'n']] [pathEntry [['g'], ['m', 'a', 'i', 'n']] 90,
      pathEntry [['m', 'a', 'i', 'n']] 20, pathEntry [['m', 'a', 'i', 'n'], ['s']] 40] =
        (pathEntry [['m', 'a', 'i', 'n'], ['s']] 40).result 1 ∧
      confidenceOf [['f'], ['m', 'a', 'i', 'n']]
        (pathEntry [['g'], ['m', 'a', 'i', 'n']] 90).frames = 17 / 20 := by
  refine ⟨?_, by decide +kernel⟩
  obtain ⟨e, he, hresult, -, hprefix, hmax⟩ := (best_perf_match_prefers_exact.1
    [['f'], ['m', 'a', 'i', 'n']] [pathEntry [['g'], ['m', 'a', 'i', 'n']] 90,
      pathEntry [['m', 'a', 'i', 'n']] 20, pathEntry [['m', 'a', 'i', 'n'], ['s']] 40]
    (by decide)).1 ⟨pathEntry [['m', 'a', 'i', 'n']] 20, by simp, by decide⟩
  rw [hresult]
  rcases List.mem_cons.mp he with rfl | hexact
  · exact absurd hprefix (by decide)
  rcases List.mem_cons.mp hexact with rfl | hlast
  · -- the other exact path costs more
    have hle := hmax (pathEntry [['m', 'a', 'i', 'n'], ['s']] 40) (by simp) (by decide) (by decide)
    exact absurd hle (by decide +kernel)
  · rw [List.mem_singleton.mp hlast]

/-- The name `[a] [b] f`, of which the first normalisation leaves `[b] f` and the second `f`. -/
def taggedName : Name := ['[', 'a', ']', ' ', '[', 'b', ']', ' ', 'f']

def taggedEntry : PerfEntry := ⟨taggedName, [], 1, 0, 1, taggedName, 0⟩

def plainEntry : PerfEntry := ⟨['f'], [], 50, 0, 2, ['f'], 0⟩

/-- The comparison of names normalises once more than the test of the leaf: an entry that agrees
with the whole list for `common_prefix_len` is passed over although it costs more. -/
theorem best_perf_match_other_leaf :
    normalizedFunctions [taggedName] <+: taggedEntry.frames ∧
    bestPerfMatch [taggedName] [plainEntry, taggedEntry] = taggedEntry.result 1 ∧
    commonPrefixLen (normalizedFunctions [taggedName]) plainEntry.frames =
      (normalizedFunctions [taggedName]).length ∧
    taggedEntry.percent < plainEntry.percent := by
  refine ⟨by decide, by decide +kernel, by decide, by decide +kernel⟩

end RdSpeTool.PerfMatch
