import Mathlib.Data.List.DropRight
import RdSpeTool.GeneralFormat
import RdSpeTool.PerfMatch
import RdSpeTool.Sections

/-!
# The call paths of a cost report

`parse_perf_callpath_cost.py` reads the report of `perf report --stdio`: lines that begin with a
percentage open an entry, and the indented lines below it are the frames of its call paths.
-/

namespace RdSpeTool.PerfMatch

open PyText Sections
open CText (digitValue)

/-! ## The code -/

structure InvalidFloat where
  text : Name
  deriving DecidableEq

/-- A match of `\d+(?:\.\d+)?%` at the start: the number, and what stands behind it. -/
def matchPercent (s : Name) : Option (Name × Name) :=
  let whole := s.takeWhile isdecimal
  if whole = [] then none
  else
    match s.dropWhile isdecimal with
    | '%' :: rest => some (whole, rest)
    | '.' :: t =>
        let frac := t.takeWhile isdecimal
        if frac = [] then none
        else
          match t.dropWhile isdecimal with
          | '%' :: rest => some (whole ++ '.' :: frac, rest)
          | _ => none
    | _ => none

/-- A match of `\d+(?:\.\d+)?%--` at the start. -/
def matchShare (s : Name) : Option (Name × Name) :=
  match matchPercent s with
  | some (percent, '-' :: '-' :: rest) => some (percent, rest)
  | _ => none

/-- `BRANCH_RE` behind the optional bar. -/
def matchBranch (s : Name) : Option (Name × Name) :=
  match s.dropWhile isspace with
  | '-' :: '-' :: t =>
      match matchShare t with
      | some (percent, rest) =>
          let frame := rest.takeWhile (· ≠ '\n')
          if frame = [] ∨ atEnd (rest.dropWhile (· ≠ '\n')) = false then none
          else some (percent, frame)
      | none => none
  | _ => none

def searchBar : Name → Option (Name × Name)
  | [] => none
  | c :: s =>
      match if c = '|' then matchBranch s else none with
      | some p => some p
      | none => searchBar s

def searchBranch (s : Name) : Option (Name × Name) :=
  match matchBranch s with
  | some p => some p
  | none => searchBar s

/-- The rest behind a match of `\s+\+0x[0-9a-fA-F]+$` at the start. -/
def matchOffset (s : Name) : Option Name :=
  if s.takeWhile isspace = [] then none
  else
    match s.dropWhile isspace with
    | '+' :: '0' :: 'x' :: t =>
        let rest := t.dropWhile (digitValue · < 16)
        if t.takeWhile (digitValue · < 16) = [] ∨ atEnd rest = false then none else some rest
    | _ => none

def normalizeSymbol (symbol : Name) : Name :=
  strip (deleteMatch matchOffset (dropLeadingTag (strip symbol)))

def dropShare (s : Name) : Name := ((matchShare s).map Prod.snd).getD s

def dropDashedShare : Name → Name
  | '-' :: '-' :: t => ((matchShare t).map Prod.snd).getD ('-' :: '-' :: t)
  | s => s

def cleanCallgraphFrame (line : Name) : Option Name :=
  let text := strip line
  if text = [] ∨ text = ['|'] then none
  else
    let text := strip (text.filter (· ≠ '|'))
    let text := strip (text.dropWhile (· = '-'))
    let text := strip (dropDashedShare text)
    let text := strip (dropShare text)
    if text = [] then none else some (normalizeSymbol text)

/-- `re.split(r"\s{2,}", s)`, with the column so far and the white space behind it. -/
def splitColumns (column gap : Name) : Name → List Name
  | [] => if 2 ≤ gap.length then [column, []] else [column ++ gap]
  | c :: s =>
      if isspace c then splitColumns column (gap ++ [c]) s
      else if 2 ≤ gap.length then column :: splitColumns [c] [] s
      else splitColumns (column ++ gap ++ [c]) [] s

/-- `float(s.rstrip("%"))` of a text that begins with a digit. -/
def percentOf (s : Name) : Except InvalidFloat ℚ :=
  let text := s.rdropWhile (· = '%')
  match GeneralFormat.readDecimal text with
  | some q => .ok q
  | none => .error ⟨text⟩

structure ReportLine where
  selfPercent : ℚ
  childrenPercent : ℚ
  command : Name
  module : Name
  symbol : Name
  deriving DecidableEq

def parseEntryLine (line : Name) : Except InvalidFloat (Option ReportLine) :=
  let stripped := strip line
  if (matchPercent stripped).isNone then .ok none
  else
    let parts := splitColumns [] [] stripped
    if parts.length < 4 then .ok none
    else do
      let first ← percentOf (parts.getD 0 [])
      let second := (matchPercent (parts.getD 1 [])).any fun p => atEnd p.2
      let self ← if second then percentOf (parts.getD 1 []) else pure first
      let index := if second then 2 else 1
      if parts.length ≤ index + 2 then pure none
      else pure (some ⟨self, first, parts.getD index [], parts.getD (index + 1) [],
        normalizeSymbol (parts.getD (index + 2) [])⟩)

def appendFrame (out : List Name) (frame : Name) : List Name :=
  if frame ≠ [] ∧ (out = [] ∨ out.getLast? ≠ some frame) then out ++ [frame] else out

def dedupeConsecutive (frames : List Name) : List Name := frames.foldl appendFrame []

structure Branch where
  percent : ℚ
  frames : List Name
  deriving DecidableEq

/-- The lists of `finalize_entry`; `current_branch` is the last branch. -/
structure GraphState where
  fallback : List Name
  branches : List Branch

def leadOf (symbol : Name) : List Name := if symbol = [] then [] else [symbol]

def shareOf (percent : Name) : ℚ := (GeneralFormat.readDecimal percent).getD 0

def graphFrame (raw : Name) : Option Name :=
  (cleanCallgraphFrame raw).filter fun frame => frame ≠ [] ∧ frame ≠ ['-'] ∧ frame ≠ ['.']

def readGraphLine (symbol : Name) (st : GraphState) (raw : Name) : GraphState :=
  let stripped := strip raw
  if stripped = [] ∨ stripped = ['|'] then st
  else
    match searchBranch stripped with
    | some (percent, frame) =>
        { st with branches := st.branches ++
            [⟨shareOf percent, dedupeConsecutive (leadOf symbol ++ [normalizeSymbol frame])⟩] }
    | none =>
        match graphFrame raw with
        | none => st
        | some frame =>
            if frame = symbol ∧ st.branches = [] then st
            else
              match st.branches.getLast? with
              | some b => { st with branches := st.branches.dropLast ++
                  [{ b with frames := dedupeConsecutive (b.frames ++ [frame]) }] }
              | none => { st with fallback := st.fallback ++ [frame] }

structure Callpath where
  line : ReportLine
  selfPercent : ℚ
  childrenPercent : ℚ
  parentSymbolPercent : Option ℚ
  branchIndex : ℕ
  branchPercent : ℚ
  frames : List Name
  text : Name
  callpathId : ℕ
  frameDepth : ℕ
  deriving DecidableEq

def pathText (frames : List Name) : Name := " <- ".toList.intercalate frames

def branchPath (line : ReportLine) (i : ℕ) (b : Branch) : Callpath where
  line := line
  selfPercent := b.percent
  childrenPercent := b.percent
  parentSymbolPercent := some line.selfPercent
  branchIndex := i
  branchPercent := b.percent
  frames := dedupeConsecutive b.frames
  text := pathText (dedupeConsecutive b.frames)
  callpathId := 0
  frameDepth := 0

def fallbackPath (line : ReportLine) (frames : List Name) : Callpath where
  line := line
  selfPercent := line.selfPercent
  childrenPercent := line.childrenPercent
  parentSymbolPercent := none
  branchIndex := 0
  branchPercent := line.selfPercent
  frames := dedupeConsecutive frames
  text := pathText (dedupeConsecutive frames)
  callpathId := 0
  frameDepth := 0

def finalizeEntry (line : ReportLine) (graphLines : List Name) : List Callpath :=
  let symbol := normalizeSymbol line.symbol
  let st := graphLines.foldl (readGraphLine symbol) ⟨leadOf symbol, []⟩
  if st.branches = [] then [fallbackPath line st.fallback]
  else st.branches.mapIdx fun i b => branchPath line (i + 1) b

/-- A line that `parse_report` keeps for the entry above it. -/
def isGraphLine (raw : Name) : Bool :=
  let stripped := strip raw
  stripped ≠ [] ∧ stripped.head? ≠ some '#' ∧ (raw.head? = some ' ' ∨ raw.head? = some '\t')

structure ReportState where
  entries : List Callpath
  current : Option ReportLine
  graphLines : List Name

def ReportState.close (st : ReportState) : List Callpath :=
  match st.current with
  | none => st.entries
  | some line => st.entries ++ finalizeEntry line st.graphLines

def readReportLine (st : ReportState) (raw : Name) : Except InvalidFloat ReportState := do
  match ← parseEntryLine raw with
  | some line => pure ⟨st.close, some line, []⟩
  | none =>
      if st.current = none then pure st
      else if isGraphLine raw then pure { st with graphLines := st.graphLines ++ [raw] }
      else pure st

def isLineBreak (c : Char) : Bool :=
  (10 ≤ c.toNat && c.toNat ≤ 13) || (28 ≤ c.toNat && c.toNat ≤ 30) ||
    [0x85, 0x2028, 0x2029].contains c.toNat

/-- `s.splitlines()` of a text that has no carriage return in front of a newline. -/
def splitlines (line : Name) : Name → List Name
  | [] => if line = [] then [] else [line]
  | c :: s => if isLineBreak c then line :: splitlines [] s else splitlines (line ++ [c]) s

/-- The lines of a file that is read in text mode. -/
def reportLines (text : Name) : List Name := splitlines [] (universalNewlines text)

def numberPaths (paths : List Callpath) : List Callpath :=
  paths.mapIdx fun i p => { p with callpathId := i + 1, frameDepth := p.frames.length }

def parseReport (text : Name) : Except InvalidFloat (List Callpath) :=
  ((reportLines text).foldlM readReportLine ⟨[], none, []⟩).map fun st => numberPaths st.close

/-! ## Frames without repetition -/

def Settled (frames : List Name) : Prop := [] ∉ frames ∧ frames.IsChain (· ≠ ·)

theorem appendFrame_cases (out : List Name) (frame : Name) :
    (appendFrame out frame = out ∧ (frame = [] ∨ out.getLast? = some frame)) ∨
      (appendFrame out frame = out ++ [frame] ∧ frame ≠ [] ∧ out.getLast? ≠ some frame) := by
  unfold appendFrame
  by_cases hnil : frame = []
  · exact .inl ⟨if_neg fun h => h.1 hnil, .inl hnil⟩
  by_cases hlast : out.getLast? = some frame
  · refine .inl ⟨if_neg ?_, .inr hlast⟩
    rintro ⟨-, rfl | hne⟩
    · cases hlast
    · exact hne hlast
  · exact .inr ⟨if_pos ⟨hnil, .inr hlast⟩, hnil, hlast⟩

theorem Settled.appendFrame {out : List Name} (h : Settled out) (frame : Name) :
    Settled (appendFrame out frame) := by
  rcases appendFrame_cases out frame with ⟨heq, -⟩ | ⟨heq, hnil, hlast⟩
  · rwa [heq]
  · rw [heq]
    refine ⟨?_, ?_⟩
    · rw [List.mem_append, List.mem_singleton, not_or]
      exact ⟨h.1, Ne.symm hnil⟩
    · rw [List.isChain_append]
      refine ⟨h.2, List.isChain_singleton _, ?_⟩
      intro x hx y hy
      rw [List.head?_cons, Option.mem_some_iff] at hy
      rintro rfl
      rw [hy] at hlast
      exact hlast hx

theorem settled_dedupe (frames : List Name) : Settled (dedupeConsecutive frames) := by
  induction frames using List.reverseRecOn with
  | nil => exact ⟨List.not_mem_nil, List.IsChain.nil⟩
  | append_singleton frames frame ih =>
      rw [dedupeConsecutive, List.foldl_append]
      exact ih.appendFrame frame

theorem Settled.dedupe_eq {frames : List Name} (h : Settled frames) :
    dedupeConsecutive frames = frames := by
  induction frames using List.reverseRecOn with
  | nil => rfl
  | append_singleton frames frame ih =>
      obtain ⟨hnil, hchain⟩ := h
      rw [List.mem_append, List.mem_singleton, not_or] at hnil
      rw [List.isChain_append] at hchain
      obtain ⟨hfront, -, hseam⟩ := hchain
      have hout := ih ⟨hnil.1, hfront⟩
      rw [dedupeConsecutive] at hout ⊢
      rw [List.foldl_append, hout]
      rcases appendFrame_cases frames frame with ⟨-, hempty | hlast⟩ | ⟨heq, -⟩
      · exact absurd hempty.symm hnil.2
      · exact absurd rfl (hseam frame hlast frame rfl)
      · exact heq

theorem dedupe_append (frames more : List Name) :
    dedupeConsecutive (dedupeConsecutive frames ++ more) = dedupeConsecutive (frames ++ more) := by
  have hself := (settled_dedupe frames).dedupe_eq
  rw [dedupeConsecutive, List.foldl_append, dedupeConsecutive.eq_1 (frames ++ more),
    List.foldl_append]
  exact congrArg (fun out => more.foldl appendFrame out) hself

theorem prefix_foldl_appendFrame (out frames : List Name) :
    out <+: frames.foldl appendFrame out := by
  induction frames generalizing out with
  | nil => exact List.prefix_rfl
  | cons frame frames ih =>
      have hround : out <+: appendFrame out frame := by
        rcases appendFrame_cases out frame with ⟨heq, -⟩ | ⟨heq, -⟩
        · rw [heq]
        · rw [heq]
          exact List.prefix_append out [frame]
      exact hround.trans (ih _)

theorem head?_dedupe {symbol : Name} (h : symbol ≠ []) (frames : List Name) :
    (dedupeConsecutive (leadOf symbol ++ frames)).head? = some symbol := by
  have hlead : leadOf symbol = [symbol] := if_neg h
  have hfirst : appendFrame [] symbol = [symbol] := if_pos ⟨h, .inl rfl⟩
  obtain ⟨rest, hrest⟩ := prefix_foldl_appendFrame [symbol] frames
  rw [hlead, dedupeConsecutive, List.foldl_append, List.foldl_cons, List.foldl_nil, hfirst,
    ← hrest]
  rfl

/-! ## Branches -/

def branchLine (raw : Name) : Option (Name × Name) := searchBranch (strip raw)

def branchOf (symbol : Name) (s : (Name × Name) × List Name) : Branch :=
  ⟨shareOf s.1.1,
    dedupeConsecutive (leadOf symbol ++ normalizeSymbol s.1.2 :: s.2.filterMap graphFrame)⟩

def fallbackOf (symbol : Name) (graphLines : List Name) : List Name :=
  leadOf symbol ++ ((body branchLine graphLines).filterMap graphFrame).filter (· ≠ symbol)

theorem quiet_line {raw : Name} (h : strip raw = [] ∨ strip raw = ['|']) :
    branchLine raw = none ∧ graphFrame raw = none := by
  constructor
  · unfold branchLine
    rcases h with h | h <;> rw [h] <;> rfl
  · unfold graphFrame cleanCallgraphFrame
    dsimp only
    rw [if_pos h]
    rfl

theorem readGraphLine_branch {symbol raw : Name} {p : Name × Name} (h : branchLine raw = some p)
    (st : GraphState) :
    readGraphLine symbol st raw =
      { st with branches := st.branches ++ [branchOf symbol (p, [])] } := by
  have hstripped : ¬ (strip raw = [] ∨ strip raw = ['|']) := by
    intro hq
    rw [(quiet_line hq).1] at h
    cases h
  unfold branchLine at h
  unfold readGraphLine
  dsimp only
  rw [if_neg hstripped, h]
  rfl

theorem readGraphLine_none {symbol raw : Name} (h : branchLine raw = none)
    (hf : graphFrame raw = none) (st : GraphState) : readGraphLine symbol st raw = st := by
  unfold branchLine at h
  unfold readGraphLine
  dsimp only
  split_ifs with hstripped
  · rfl
  · rw [h, hf]

theorem readGraphLine_frame {symbol raw frame : Name} (h : branchLine raw = none)
    (hf : graphFrame raw = some frame) (st : GraphState) :
    readGraphLine symbol st raw =
      if frame = symbol ∧ st.branches = [] then st
      else
        match st.branches.getLast? with
        | some b => { st with branches := st.branches.dropLast ++
            [{ b with frames := dedupeConsecutive (b.frames ++ [frame]) }] }
        | none => { st with fallback := st.fallback ++ [frame] } := by
  have hstripped : ¬ (strip raw = [] ∨ strip raw = ['|']) := by
    intro hq
    rw [(quiet_line hq).2] at hf
    cases hf
  unfold branchLine at h
  unfold readGraphLine
  dsimp only
  rw [if_neg hstripped, h, hf]

/-- A frame below a branch line belongs to its branch. -/
theorem branchOf_concat (symbol : Name) (p : Name × Name) (m : List Name) {raw frame : Name}
    (hf : graphFrame raw = some frame) :
    branchOf symbol (p, m ++ [raw]) =
      { branchOf symbol (p, m) with
        frames := dedupeConsecutive ((branchOf symbol (p, m)).frames ++ [frame]) } := by
  unfold branchOf
  dsimp only
  rw [dedupe_append, List.filterMap_append, List.filterMap_cons, hf, List.filterMap_nil]
  simp only [List.append_assoc, List.cons_append]

theorem foldl_readGraphLine (symbol : Name) (graphLines : List Name) :
    graphLines.foldl (readGraphLine symbol) ⟨leadOf symbol, []⟩ =
      ⟨fallbackOf symbol graphLines, (sections branchLine graphLines).map (branchOf symbol)⟩ := by
  induction graphLines using List.reverseRecOn with
  | nil => simp [fallbackOf, body, sections]
  | append_singleton graphLines raw ih =>
      rw [List.foldl_append, List.foldl_cons, List.foldl_nil, ih]
      cases hb : branchLine raw with
      | some p =>
          rw [readGraphLine_branch hb, sections_concat_heading hb, List.map_append]
          unfold fallbackOf
          rw [body_append_heading hb]
          rfl
      | none =>
          rcases List.eq_nil_or_concat (sections branchLine graphLines) with
            hnil | ⟨before, ⟨p, m⟩, hsplit⟩
          · -- no branch so far: the frame goes to the fallback
            have hall : ∀ x ∈ graphLines ++ [raw], branchLine x = none := by
              rw [List.forall_mem_append, List.forall_mem_singleton]
              exact ⟨sections_eq_nil.mp hnil, hb⟩
            have hfallback : fallbackOf symbol (graphLines ++ [raw]) =
                fallbackOf symbol graphLines ++
                  ((graphFrame raw).toList.filter (· ≠ symbol)) := by
              unfold fallbackOf
              rw [body_eq_self hall, body_eq_self (sections_eq_nil.mp hnil),
                List.filterMap_append, List.filter_append, List.append_assoc]
              cases hf : graphFrame raw <;> simp [hf]
            rw [sections_eq_nil.mpr hall, hnil, hfallback]
            cases hf : graphFrame raw with
            | none =>
                rw [readGraphLine_none hb hf]
                simp
            | some frame =>
                rw [readGraphLine_frame hb hf]
                by_cases hsym : frame = symbol
                · simp [hsym]
                · simp [hsym]
          · rw [List.concat_eq_append] at hsplit
            have hne : sections branchLine graphLines ≠ [] := by
              rw [hsplit]
              simp
            have hfallback : fallbackOf symbol (graphLines ++ [raw]) =
                fallbackOf symbol graphLines := by
              unfold fallbackOf
              rw [body_append hne]
            rw [sections_concat_member hb hsplit, hsplit, hfallback, List.map_append,
              List.map_append]
            cases hf : graphFrame raw with
            | none =>
                rw [readGraphLine_none hb hf]
                unfold branchOf
                simp [hf]
            | some frame =>
                rw [readGraphLine_frame hb hf, List.map_singleton, List.map_singleton,
                  branchOf_concat symbol p m hf]
                simp

/-! ## Percentages -/

/-- The call paths of an entry: one for each branch, or the one without branches. -/
def blockPaths (b : ReportLine × List Name) : List Callpath :=
  let symbol := normalizeSymbol b.1.symbol
  if sections branchLine b.2 = [] then [fallbackPath b.1 (fallbackOf symbol b.2)]
  else (sections branchLine b.2).mapIdx fun i s => branchPath b.1 (i + 1) (branchOf symbol s)

theorem finalizeEntry_eq (line : ReportLine) (graphLines : List Name) :
    finalizeEntry line graphLines = blockPaths (line, graphLines) := by
  unfold finalizeEntry blockPaths
  dsimp only
  rw [foldl_readGraphLine]
  have hindexed : ((sections branchLine graphLines).map
      (branchOf (normalizeSymbol line.symbol))).mapIdx (fun i b => branchPath line (i + 1) b) =
        (sections branchLine graphLines).mapIdx fun i s =>
          branchPath line (i + 1) (branchOf (normalizeSymbol line.symbol) s) := by
    apply List.ext_getElem?
    intro i
    rw [List.getElem?_mapIdx, List.getElem?_map, List.getElem?_mapIdx, Option.map_map]
    rfl
  simp only [List.map_eq_nil_iff, hindexed]

/-- The frames of a path are led by the symbol of its entry. -/
theorem blockPaths_frames {b : ReportLine × List Name} {p : Callpath} (h : p ∈ blockPaths b) :
    p.line = b.1 ∧ p.text = pathText p.frames ∧ Settled p.frames ∧
      (normalizeSymbol b.1.symbol ≠ [] → p.frames.head? = some (normalizeSymbol b.1.symbol)) := by
  unfold blockPaths at h
  dsimp only at h
  split_ifs at h with hnil
  · obtain rfl := List.mem_singleton.mp h
    exact ⟨rfl, rfl, settled_dedupe _, fun hsym => head?_dedupe hsym _⟩
  · obtain ⟨i, hi, rfl⟩ := List.mem_mapIdx.mp h
    refine ⟨rfl, rfl, settled_dedupe _, fun hsym => ?_⟩
    unfold branchPath branchOf
    dsimp only
    rw [(settled_dedupe _).dedupe_eq]
    exact head?_dedupe hsym _

def entryLine (raw : Name) : Option ReportLine := (parseEntryLine raw).toOption.join

/-- The entry lines of a report, each with the graph lines below it. -/
def blocksOf (lines : List Name) : List (ReportLine × List Name) :=
  (sections entryLine lines).map fun s => (s.1, s.2.filter isGraphLine)

def ReportState.Holds (st : ReportState) (blocks : List (ReportLine × List Name)) : Prop :=
  (blocks = [] ∧ st = ⟨[], none, []⟩) ∨
    ∃ before line graphLines, blocks = before ++ [(line, graphLines)] ∧
      st = ⟨before.flatMap blockPaths, some line, graphLines⟩

theorem ReportState.Holds.close {st : ReportState} {blocks : List (ReportLine × List Name)}
    (h : st.Holds blocks) : st.close = blocks.flatMap blockPaths := by
  rcases h with ⟨rfl, rfl⟩ | ⟨before, line, graphLines, rfl, rfl⟩
  · rfl
  · unfold ReportState.close
    dsimp only
    rw [finalizeEntry_eq, List.flatMap_append, List.flatMap_singleton]

theorem readReportLine_ok {st : ReportState} {raw : Name} {o : Option ReportLine}
    (h : parseEntryLine raw = .ok o) {lines : List Name} (hst : st.Holds (blocksOf lines)) :
    ∃ st', readReportLine st raw = .ok st' ∧ st'.Holds (blocksOf (lines ++ [raw])) := by
  have hentry : entryLine raw = o := by
    unfold entryLine
    rw [h]
    rfl
  have hclose := hst.close
  unfold readReportLine blocksOf at *
  rw [h]
  cases o with
  | some line =>
      refine ⟨_, rfl, .inr ⟨(sections entryLine lines).map fun s => (s.1, s.2.filter isGraphLine),
        line, [], ?_, ?_⟩⟩
      · rw [sections_concat_heading hentry, List.map_append]
        rfl
      · rw [hclose]
  | none =>
      rcases List.eq_nil_or_concat (sections entryLine lines) with
        hnil | ⟨before, ⟨line, members⟩, hsplit⟩
      · rw [hnil] at hst
        obtain ⟨-, rfl⟩ := hst.resolve_right fun ⟨before, _, _, h0, _⟩ => by simp at h0
        refine ⟨⟨[], none, []⟩, rfl, .inl ⟨?_, rfl⟩⟩
        rw [sections_concat_none hentry hnil]
        rfl
      · rw [List.concat_eq_append] at hsplit
        rw [hsplit, List.map_append, List.map_singleton] at hst
        obtain ⟨before', line', graphLines, heq, rfl⟩ :=
          hst.resolve_left fun ⟨h0, _⟩ => by simp at h0
        obtain ⟨rfl, hlast⟩ := List.append_inj' heq rfl
        obtain ⟨rfl, rfl⟩ := Prod.mk.inj (List.singleton_inj.mp hlast)
        rw [sections_concat_member hentry hsplit, List.map_append, List.map_singleton,
          List.filter_append]
        by_cases hgraph : isGraphLine raw = true
        · refine ⟨_, ?_, .inr ⟨_, line, _, rfl, rfl⟩⟩
          rw [List.filter_singleton, hgraph]
          simp [bind, Except.bind]
          rfl
        · refine ⟨_, ?_, .inr ⟨_, line, _, rfl, rfl⟩⟩
          rw [List.filter_singleton]
          simp [bind, Except.bind, hgraph]
          rfl

theorem foldlM_readReportLine {lines : List Name}
    (h : ∀ raw ∈ lines, ∃ o, parseEntryLine raw = .ok o) :
    ∃ st, lines.foldlM readReportLine ⟨[], none, []⟩ = .ok st ∧ st.Holds (blocksOf lines) := by
  induction lines using List.reverseRecOn with
  | nil => exact ⟨_, rfl, .inl ⟨rfl, rfl⟩⟩
  | append_singleton lines raw ih =>
      rw [List.forall_mem_append, List.forall_mem_singleton] at h
      obtain ⟨st, hst, hholds⟩ := ih h.1
      obtain ⟨o, ho⟩ := h.2
      obtain ⟨st', hst', hholds'⟩ := readReportLine_ok ho hholds
      refine ⟨st', ?_, hholds'⟩
      rw [List.foldlM_append, hst]
      change List.foldlM readReportLine st [raw] = _
      rw [List.foldlM_cons, hst']
      rfl

theorem ok_of_foldlM {lines : List Name} {st st' : ReportState}
    (h : lines.foldlM readReportLine st = .ok st') :
    ∀ raw ∈ lines, ∃ o, parseEntryLine raw = .ok o := by
  induction lines generalizing st with
  | nil => exact fun raw hraw => absurd hraw List.not_mem_nil
  | cons raw lines ih =>
      rw [List.foldlM_cons] at h
      rw [List.forall_mem_cons]
      cases hraw : parseEntryLine raw with
      | error e =>
          unfold readReportLine at h
          rw [hraw] at h
          cases h
      | ok o =>
          refine ⟨⟨o, rfl⟩, ?_⟩
          cases hround : readReportLine st raw with
          | error e =>
              rw [hround] at h
              cases h
          | ok st₁ =>
              rw [hround] at h
              exact ih h

theorem parseReport_eq_ok {text : Name} {es : List Callpath} :
    parseReport text = .ok es ↔
      (∀ raw ∈ reportLines text, ∃ o, parseEntryLine raw = .ok o) ∧
        es = numberPaths ((blocksOf (reportLines text)).flatMap blockPaths) := by
  unfold parseReport
  constructor
  · intro h
    cases hst : (reportLines text).foldlM readReportLine ⟨[], none, []⟩ with
    | error e =>
        rw [hst] at h
        cases h
    | ok st =>
        have hall := ok_of_foldlM hst
        obtain ⟨st', hst', hholds⟩ := foldlM_readReportLine hall
        rw [hst] at hst' h
        obtain rfl := Except.ok.inj hst'
        refine ⟨hall, ?_⟩
        rw [← hholds.close]
        exact (Except.ok.inj h).symm
  · rintro ⟨hall, rfl⟩
    obtain ⟨st, hst, hholds⟩ := foldlM_readReportLine hall
    rw [hst, ← hholds.close]
    rfl

theorem numberPaths_spec (paths : List Callpath) (i : ℕ) (p : Callpath)
    (h : (numberPaths paths)[i]? = some p) :
    p.callpathId = i + 1 ∧ p.frameDepth = p.frames.length ∧
      ∃ q ∈ paths, p = { q with callpathId := i + 1, frameDepth := q.frames.length } := by
  unfold numberPaths at h
  rw [List.getElem?_mapIdx, Option.map_eq_some_iff] at h
  obtain ⟨q, hq, rfl⟩ := h
  exact ⟨rfl, rfl, q, List.mem_of_getElem? hq, rfl⟩

end RdSpeTool.PerfMatch
