import RdSpeTool.FrameText
import RdSpeTool.HotspotManifest
import RdSpeTool.OrderedGroups
import RdSpeTool.Ranking

/-!
# The attribution report of the hotspots

`resolve_hotspots.py` adds up the hotspots of all threads by instruction, leaves out instructions
that belong to no source statement, and shows the others in a tree of functions, loops, statements
and source lines. The same instructions make up the filtered manifest.
-/

namespace RdSpeTool.Attribution

open PyText OrderedGroups Ranking

/-! ## Adding up -/

structure HotspotPc where
  key : HotpcKey
  entries : List HotpcEntry
  sampleCountSum : ℤ
  candidateScoreSum : ℤ
  latTotalSum : ℤ
  latIssueSum : ℤ
  latXlatSum : ℤ
  latExecSum : ℤ
  l1dRefillCount : ℤ
  llcMissCount : ℤ
  tlbWalkCount : ℤ
  remoteAccessCount : ℤ
  paretoPcCount : ℕ

def sumOf (f : HotpcEntry → ℤ) (group : List HotpcEntry) : ℤ := (group.map f).sum

/-- `entry.candidate_score or entry.sample_count`. -/
def scoreOf (e : HotpcEntry) : ℤ := if e.candidateScore = 0 then e.sampleCount else e.candidateScore

def sortEntries (group : List HotpcEntry) : List HotpcEntry :=
  group.insertionSort fun a b => toLex (a.tid, a.rank) ≤ toLex (b.tid, b.rank)

def hotspotPc (g : HotpcKey × List HotpcEntry) : HotspotPc where
  key := g.1
  entries := sortEntries g.2
  sampleCountSum := sumOf HotpcEntry.sampleCount g.2
  candidateScoreSum := sumOf scoreOf g.2
  latTotalSum := sumOf HotpcEntry.latTotalSum g.2
  latIssueSum := sumOf HotpcEntry.latIssueSum g.2
  latXlatSum := sumOf HotpcEntry.latXlatSum g.2
  latExecSum := sumOf HotpcEntry.latExecSum g.2
  l1dRefillCount := sumOf HotpcEntry.l1dRefillCount g.2
  llcMissCount := sumOf HotpcEntry.llcMissCount g.2
  tlbWalkCount := sumOf HotpcEntry.tlbWalkCount g.2
  remoteAccessCount := sumOf HotpcEntry.remoteAccessCount g.2
  paretoPcCount := if g.2.any fun e => e.paretoFront ≠ 0 then 1 else 0

def HotspotPc.rank (pc : HotspotPc) : ℤ ×ₗ ℤ ×ₗ ℤ ×ₗ Text ×ₗ ℤ :=
  toLex (-pc.latExecSum, toLex (-pc.candidateScoreSum, toLex (-pc.sampleCountSum,
    toLex (pc.key.path, pc.key.pcOffset))))

def aggregateHotspots (entries : List HotpcEntry) : List HotspotPc :=
  ((tabulate [] (fun e g => g ++ [e]) HotpcEntry.key entries).map hotspotPc).insertionSort
    fun a b => a.rank ≤ b.rank

/-! ## Instructions of the stack frame -/

structure InstructionInfo where
  text : Text
  mnemonic : Text
  operands : Text

/-- `re.fullmatch` of a letter and digits: the number. -/
def registerNumber (letters : List Char) : Text → Option ℕ
  | [] => none
  | c :: s =>
      if c ∈ letters ∧ s ≠ [] ∧ s.all isdecimal then some (decimalValue s) else none

def isCalleeSavedRegister (reg : Text) : Bool :=
  let reg := reg.map Char.toLower
  match registerNumber ['x', 'w'] reg with
  | some num => 19 ≤ num ∧ num ≤ 30
  | none =>
      match registerNumber ['d', 'q', 'v'] reg with
      | some num => 8 ≤ num ∧ num ≤ 15
      | none => reg = "fp".toList ∨ reg = "lr".toList

/-- `\w` of ASCII text. -/
def isWordChar (c : Char) : Bool := c.isAlphanum || c = '_'

/-- The whole words of a text that name a register. -/
def stackRegisterOperands (operands : Text) : List Text :=
  let beforeMemory := (operands.takeWhile (· ≠ '[')).map Char.toLower
  (beforeMemory.splitOnP fun c => !isWordChar c).filter fun word =>
    (registerNumber ['x', 'w', 'd', 'q', 'v'] word).isSome ∨ word = "fp".toList ∨
      word = "lr".toList

def stackMnemonics : List Text :=
  ["stp".toList, "ldp".toList, "str".toList, "ldr".toList, "stur".toList, "ldur".toList]

def prologueEpilogueReason : Option InstructionInfo → Text
  | none => []
  | some instruction =>
      let lower := instruction.operands.map Char.toLower
      let regs := stackRegisterOperands instruction.operands
      if ¬ stackMnemonics.contains instruction.mnemonic then []
      else if ¬ ("[sp,".toList <:+: lower ∨ "[sp]".toList <:+: lower) then []
      else if regs = [] ∨ ¬ regs.all isCalleeSavedRegister then []
      else if "st".toList.isPrefixOf instruction.mnemonic then
        "function_prologue_callee_saved_spill".toList
      else "function_epilogue_callee_saved_restore".toList

/-! ## Attribution -/

/-- What the script asks the file system, the binary tools and the syntax tree. -/
structure SourceEnv where
  pathExists : Text → Bool
  /-- Whether a path is under the root of the sources, if there is one. -/
  underRoot : Option (Text → Bool)
  symbolizeModule : Text → List ℤ → ℤ → Option (List SourceFrame)
  disassembleInstruction : Text → ℤ → Option InstructionInfo
  /-- The label of the innermost loop. -/
  loopLabel : SourceFrame → Option Text
  /-- The label of the nearest statement. -/
  statementLabel : SourceFrame → Option Text
  sourceStatementFragment : SourceFrame → Text
  displayPath : Text → Text

structure ResolvedHotspot where
  pc : HotspotPc
  frames : List SourceFrame
  instruction : Option InstructionInfo
  function : Text
  sourceFrame : Option SourceFrame
  loop : Option Text
  statement : Option Text
  unresolvedReason : Text

structure FilteredPc where
  pc : HotspotPc
  reason : Text
  source : Text
  instructionText : Text

section Resolve

variable (env : SourceEnv)

def sourceLabel (f : SourceFrame) : Text :=
  if f.file = [] ∨ f.line = 0 then "unresolved".toList
  else
    let place := env.displayPath f.file ++ ':' :: formatInt 10 f.line
    if 0 < f.column then place ++ ':' :: formatInt 10 f.column else place

def chooseSourceFrame (frames : List SourceFrame) : Option SourceFrame :=
  let valid := frames.filter fun f => f.file ≠ [] ∧ 0 < f.line ∧ env.pathExists f.file
  match env.underRoot with
  | none => valid.head?
  | some under => (valid.find? fun f => under f.file).or valid.head?

def framesFor (pcs : List HotspotPc) (pc : HotspotPc) : List SourceFrame :=
  if env.pathExists pc.key.path then
    (env.symbolizeModule pc.key.path ((pcs.filter fun p => p.key.path = pc.key.path).map
      fun p => p.key.pcOffset) pc.key.pcOffset).getD []
  else []

def instructionFor (pc : HotspotPc) : Option InstructionInfo :=
  if env.pathExists pc.key.path then env.disassembleInstruction pc.key.path pc.key.pcOffset
  else none

def isNamed (function : Text) : Bool := function ≠ [] ∧ function ≠ "??".toList

def functionFor (pc : HotspotPc) (frames : List SourceFrame) (source : Option SourceFrame) : Text :=
  let unnamed := Resolver.pathName pc.key.path ++ "+0x".toList ++ formatInt 16 pc.key.pcOffset
  let usable := ((frames.find? fun f => isNamed f.function).map SourceFrame.function).getD unnamed
  match source with
  | some f => if isNamed f.function then f.function else usable
  | none => usable

def filteredReason (instruction : Option InstructionInfo) (source : Option SourceFrame) : Text :=
  let reason := prologueEpilogueReason instruction
  if reason ≠ [] then reason
  else
    match source with
    | none => "source_unresolved".toList
    | some f =>
        if env.sourceStatementFragment f = [] then "non_source_statement".toList else []

def resolvePc (pcs : List HotspotPc) (st : List ResolvedHotspot × List FilteredPc)
    (pc : HotspotPc) : List ResolvedHotspot × List FilteredPc :=
  let frames := framesFor env pcs pc
  let instruction := instructionFor env pc
  let source := chooseSourceFrame env frames
  let statement := source.bind env.statementLabel
  let unresolved := if source.isNone then "source_unresolved".toList
    else if statement.isNone then "statement_unresolved".toList else []
  let reason := filteredReason env instruction source
  if reason ≠ [] then
    (st.1, st.2 ++ [⟨pc, reason, (source.map (sourceLabel env)).getD "unresolved".toList,
      (instruction.map InstructionInfo.text).getD "unknown".toList⟩])
  else
    (st.1 ++ [⟨pc, frames, instruction, functionFor pc frames source, source,
      source.bind env.loopLabel, statement, unresolved⟩], st.2)

def resolveHotspots (pcs : List HotspotPc) : List ResolvedHotspot × List FilteredPc :=
  pcs.foldl (resolvePc env pcs) ([], [])

/-! ## The tree -/

def groupKeyLoop (item : ResolvedHotspot) : Text := item.loop.getD "(no loop)".toList

def groupKeyStatement (item : ResolvedHotspot) : Text :=
  match item.sourceFrame with
  | some f =>
      let fragment := env.sourceStatementFragment f
      if fragment ≠ [] then "statement: \x60".toList ++ fragment ++ ['\x60']
      else "(no expression statement on resolved line)".toList
  | none =>
      match item.statement with
      | some label => label
      | none =>
          if item.unresolvedReason ≠ [] then '(' :: item.unresolvedReason ++ [')']
          else "(statement unresolved)".toList

def groupKeySource (item : ResolvedHotspot) : Text :=
  (item.sourceFrame.map (sourceLabel env)).getD "unresolved".toList

abbrev Group := Text × List ResolvedHotspot

def groupsBy (key : ResolvedHotspot → Text) (items : List ResolvedHotspot) : List Group :=
  tabulate [] (fun a g => g ++ [a]) key items

def groupRank (g : Group) : ℤ ×ₗ ℤ ×ₗ Text :=
  toLex (-(g.2.map fun item => item.pc.latExecSum).sum,
    toLex (-(g.2.map fun item => item.pc.sampleCountSum).sum, g.1))

def topGroups (top : ℤ) (groups : List Group) : List Group :=
  sliceTo (groups.insertionSort fun a b => groupRank a ≤ groupRank b) top

def topSources (top : ℤ) (groups : List Group) : List Group :=
  sliceTo (groups.insertionSort fun a b => a.1 ≤ b.1) top

def sortItems (items : List ResolvedHotspot) : List ResolvedHotspot :=
  items.insertionSort fun a b => a.pc.rank ≤ b.pc.rank

abbrev StatementNode := Text × List Group

abbrev LoopNode := Text × List StatementNode

abbrev FunctionNode := Text × List LoopNode

variable (top : ℤ)

def sourceNodes (items : List ResolvedHotspot) : List Group :=
  (topSources top (groupsBy (groupKeySource env) items)).map fun g => (g.1, sortItems g.2)

def statementNodes (items : List ResolvedHotspot) : List StatementNode :=
  (topGroups top (groupsBy (groupKeyStatement env) items)).map fun g =>
    (g.1, sourceNodes env top g.2)

def loopNodes (items : List ResolvedHotspot) : List LoopNode :=
  (topGroups top (groupsBy groupKeyLoop items)).map fun g => (g.1, statementNodes env top g.2)

def attributionTree (resolved : List ResolvedHotspot) : List FunctionNode :=
  (topGroups top (groupsBy ResolvedHotspot.function resolved)).map fun g =>
    (g.1, loopNodes env top g.2)

end Resolve

/-! ## The text of the tree -/

def treeIndent (depth : ℕ) (isLast : Bool) : Text :=
  if depth = 0 then []
  else List.replicate (4 * (depth - 1)) ' ' ++
    if isLast then "└── ".toList else "├── ".toList

def treeLine (depth : ℕ) (isLast : Bool) (label : Text) : Text := treeIndent depth isLast ++ label

def formatTwoDigits (i : ℤ) : Text :=
  if 0 ≤ i ∧ i < 10 then '0' :: formatInt 10 i else formatInt 10 i

/-- Fails without an entry, where the script raises `IndexError`. -/
def pcLabel (item : ResolvedHotspot) : Option Text :=
  item.pc.entries.head?.map fun e =>
    "[P".toList ++ formatTwoDigits e.rank ++ "] pc=0x".toList ++
      formatInt 16 item.pc.key.pcOffset ++ ", samples=".toList ++
        formatInt 10 item.pc.sampleCountSum

/-- The lines of all nodes, `line` of each one with whether it is the last. -/
def nodeLines {ν : Type*} (line : ν → Bool → Option (List Text)) (nodes : List ν) :
    Option (List Text) :=
  ((nodes.mapIdx fun i node => (node, decide (i + 1 = nodes.length))).mapM fun p =>
    line p.1 p.2).map List.flatten

def pcLines (depth : ℕ) : List ResolvedHotspot → Option (List Text) :=
  nodeLines fun item isLast => (pcLabel item).map fun label => [treeLine depth isLast label]

def sourceLines (depth : ℕ) : List Group → Option (List Text) :=
  nodeLines fun node isLast =>
    (pcLines (depth + 1) node.2).map fun below => treeLine depth isLast node.1 :: below

def statementLines (depth : ℕ) : List StatementNode → Option (List Text) :=
  nodeLines fun node isLast =>
    (sourceLines (depth + 1) node.2).map fun below => treeLine depth isLast node.1 :: below

/-- Statements outside loops stand where the loops do. -/
def loopLines : List LoopNode → Option (List Text) :=
  nodeLines fun node isLast =>
    if node.1 ≠ "(no loop)".toList then
      (statementLines 3 node.2).map fun below => treeLine 2 isLast node.1 :: below
    else statementLines 2 node.2

def functionLines : List FunctionNode → Option (List Text) :=
  nodeLines fun node isLast =>
    (loopLines node.2).map fun below => treeLine 1 isLast node.1 :: below

def writeAttributionTree (env : SourceEnv) (top : ℤ) (resolved : List ResolvedHotspot) :
    Option Text :=
  (functionLines (attributionTree env top resolved)).map fun lines =>
    unlines (["## Hotspot Attribution Tree".toList, [], "\x60\x60\x60text".toList,
      "<program root>".toList] ++ lines ++ ["\x60\x60\x60".toList, []])

/-! ## What the sums count -/

/-- The sums of an instruction are those of its entries. -/
structure HotspotPc.Summed (pc : HotspotPc) : Prop where
  sampleCountSum : pc.sampleCountSum = sumOf HotpcEntry.sampleCount pc.entries
  candidateScoreSum : pc.candidateScoreSum = sumOf scoreOf pc.entries
  latTotalSum : pc.latTotalSum = sumOf HotpcEntry.latTotalSum pc.entries
  latIssueSum : pc.latIssueSum = sumOf HotpcEntry.latIssueSum pc.entries
  latXlatSum : pc.latXlatSum = sumOf HotpcEntry.latXlatSum pc.entries
  latExecSum : pc.latExecSum = sumOf HotpcEntry.latExecSum pc.entries
  l1dRefillCount : pc.l1dRefillCount = sumOf HotpcEntry.l1dRefillCount pc.entries
  llcMissCount : pc.llcMissCount = sumOf HotpcEntry.llcMissCount pc.entries
  tlbWalkCount : pc.tlbWalkCount = sumOf HotpcEntry.tlbWalkCount pc.entries
  remoteAccessCount : pc.remoteAccessCount = sumOf HotpcEntry.remoteAccessCount pc.entries

theorem sumOf_perm (f : HotpcEntry → ℤ) {group group' : List HotpcEntry} (h : group.Perm group') :
    sumOf f group = sumOf f group' := (h.map f).sum_eq

theorem sortEntries_perm (group : List HotpcEntry) : (sortEntries group).Perm group :=
  List.perm_insertionSort _ group

theorem hotspotPc_summed (g : HotpcKey × List HotpcEntry) : (hotspotPc g).Summed := by
  have hsum : ∀ f, sumOf f g.2 = sumOf f (hotspotPc g).entries :=
    fun f => sumOf_perm f (sortEntries_perm g.2).symm
  exact ⟨hsum _, hsum _, hsum _, hsum _, hsum _, hsum _, hsum _, hsum _, hsum _, hsum _⟩

section Aggregate

variable {entries : List HotpcEntry}

theorem aggregateHotspots_perm (entries : List HotpcEntry) :
    (aggregateHotspots entries).Perm ((firsts (entries.map HotpcEntry.key)).map fun k =>
      hotspotPc (k, groupOf HotpcEntry.key entries k)) := by
  unfold aggregateHotspots
  rw [tabulate_append, List.map_map]
  exact List.perm_insertionSort _ _

theorem mem_aggregateHotspots {pc : HotspotPc} (h : pc ∈ aggregateHotspots entries) :
    pc = hotspotPc (pc.key, groupOf HotpcEntry.key entries pc.key) := by
  rw [(aggregateHotspots_perm entries).mem_iff] at h
  obtain ⟨k, -, rfl⟩ := List.mem_map.mp h
  rfl

theorem summed_of_mem {pc : HotspotPc} (h : pc ∈ aggregateHotspots entries) : pc.Summed := by
  rw [mem_aggregateHotspots h]
  exact hotspotPc_summed _

theorem entries_perm_of_mem {pc : HotspotPc} (h : pc ∈ aggregateHotspots entries) :
    pc.entries.Perm (groupOf HotpcEntry.key entries pc.key) := by
  rw [mem_aggregateHotspots h]
  exact sortEntries_perm _

theorem key_of_mem {pc : HotspotPc} (h : pc ∈ aggregateHotspots entries) {e : HotpcEntry}
    (he : e ∈ pc.entries) : e.key = pc.key := by
  have hgroup := (entries_perm_of_mem h).mem_iff.mp he
  exact of_decide_eq_true (List.mem_filter.mp hgroup).2

theorem keys_aggregateHotspots (entries : List HotpcEntry) :
    ((aggregateHotspots entries).map HotspotPc.key).Perm
      (firsts (entries.map HotpcEntry.key)) := by
  have h := (aggregateHotspots_perm entries).map HotspotPc.key
  rw [List.map_map] at h
  exact h.trans (List.Perm.of_eq (List.map_id _))

theorem nodup_keys_aggregateHotspots (entries : List HotpcEntry) :
    ((aggregateHotspots entries).map HotspotPc.key).Nodup :=
  (keys_aggregateHotspots entries).nodup_iff.mpr (nodup_firsts _)

/-- The entries of some of the instructions are the ones that the filtered manifest keeps. -/
theorem entries_perm_keptEntries {pcs : List HotspotPc}
    (h : List.Subperm pcs (aggregateHotspots entries)) :
    (pcs.flatMap HotspotPc.entries).Perm (keptEntries (pcs.map HotspotPc.key) entries) := by
  have hgroups : (pcs.flatMap HotspotPc.entries).Perm
      ((pcs.map HotspotPc.key).flatMap (groupOf HotpcEntry.key entries)) := by
    rw [List.flatMap_map]
    exact List.Perm.flatMap_left pcs fun pc hpc => entries_perm_of_mem (h.subset hpc)
  have hnd : (pcs.map HotspotPc.key).Nodup := by
    obtain ⟨l, hl, hsub⟩ := h
    rw [(hl.map HotspotPc.key).symm.nodup_iff]
    exact (nodup_keys_aggregateHotspots entries).sublist (hsub.map HotspotPc.key)
  exact hgroups.trans (flatMap_groupOf_perm HotpcEntry.key entries hnd)

theorem key_mem_aggregateHotspots {k : HotpcKey} :
    k ∈ (aggregateHotspots entries).map HotspotPc.key ↔ k ∈ entries.map HotpcEntry.key := by
  rw [(keys_aggregateHotspots entries).mem_iff]
  exact mem_firsts

theorem entries_aggregateHotspots_perm (entries : List HotpcEntry) :
    ((aggregateHotspots entries).flatMap HotspotPc.entries).Perm entries := by
  have h := entries_perm_keptEntries (List.Subperm.refl (aggregateHotspots entries))
  have hall : keptEntries ((aggregateHotspots entries).map HotspotPc.key) entries = entries := by
    unfold keptEntries
    rw [List.filter_eq_self]
    intro e he
    exact decide_eq_true (key_mem_aggregateHotspots.mpr (List.mem_map_of_mem he))
  rwa [hall] at h

theorem entries_ne_nil_of_mem {pc : HotspotPc} (h : pc ∈ aggregateHotspots entries) :
    pc.entries ≠ [] := by
  have hkey := key_mem_aggregateHotspots.mp (List.mem_map_of_mem h)
  obtain ⟨e, he, hk⟩ := List.mem_map.mp hkey
  have hmem : e ∈ pc.entries :=
    (entries_perm_of_mem h).mem_iff.mpr (List.mem_filter.mpr ⟨he, decide_eq_true hk⟩)
  exact List.ne_nil_of_mem hmem

end Aggregate

/-! ## What is left out -/

section Resolve

variable {env : SourceEnv} {pcs : List HotspotPc}

/-- An instruction that is shown belongs to a source statement and is not one of the stack frame. -/
def ResolvedHotspot.Attributed (env : SourceEnv) (item : ResolvedHotspot) : Prop :=
  prologueEpilogueReason item.instruction = [] ∧
    ∃ f, item.sourceFrame = some f ∧ env.sourceStatementFragment f ≠ []

theorem filteredReason_eq_nil {instruction : Option InstructionInfo}
    {source : Option SourceFrame} (h : filteredReason env instruction source = []) :
    prologueEpilogueReason instruction = [] ∧
      ∃ f, source = some f ∧ env.sourceStatementFragment f ≠ [] := by
  unfold filteredReason at h
  by_cases hreason : prologueEpilogueReason instruction = []
  · simp only [hreason, ne_eq, not_true_eq_false, if_false] at h
    refine ⟨hreason, ?_⟩
    cases source with
    | none => simp at h
    | some f =>
        refine ⟨f, rfl, fun hfragment => ?_⟩
        simp [hfragment] at h
  · simp only [ne_eq, hreason, not_false_eq_true, if_true] at h

structure Resolving (env : SourceEnv) (st : List ResolvedHotspot × List FilteredPc)
    (done : List HotspotPc) : Prop where
  perm : (st.1.map ResolvedHotspot.pc ++ st.2.map FilteredPc.pc).Perm done
  order : List.Sublist (st.1.map ResolvedHotspot.pc) done
  attributed : ∀ item ∈ st.1, item.Attributed env
  reason : ∀ f ∈ st.2, f.reason ≠ []

theorem Resolving.step {st : List ResolvedHotspot × List FilteredPc} {done : List HotspotPc}
    (h : Resolving env st done) (pc : HotspotPc) :
    Resolving env (resolvePc env pcs st pc) (done ++ [pc]) := by
  unfold resolvePc
  dsimp only
  by_cases hreason : filteredReason env (instructionFor env pc)
      (chooseSourceFrame env (framesFor env pcs pc)) = []
  · rw [if_neg (not_not.mpr hreason)]
    refine ⟨?_, ?_, ?_, h.reason⟩
    · rw [List.map_append, List.append_assoc]
      have hmove : ([pc] ++ st.2.map FilteredPc.pc).Perm (st.2.map FilteredPc.pc ++ [pc]) :=
        List.perm_append_comm
      have hall := h.perm.append_right [pc]
      rw [List.append_assoc] at hall
      exact (hmove.append_left _).trans hall
    · rw [List.map_append]
      exact h.order.append (List.Sublist.refl [pc])
    · intro item hitem
      rcases List.mem_append.mp hitem with hitem | hitem
      · exact h.attributed item hitem
      · obtain rfl := List.mem_singleton.mp hitem
        exact filteredReason_eq_nil hreason
  · rw [if_pos hreason]
    refine ⟨?_, ?_, h.attributed, ?_⟩
    · rw [List.map_append, ← List.append_assoc]
      exact h.perm.append_right [pc]
    · exact h.order.trans (List.sublist_append_left done [pc])
    · intro f hf
      rcases List.mem_append.mp hf with hf | hf
      · exact h.reason f hf
      · obtain rfl := List.mem_singleton.mp hf
        exact hreason

theorem resolving_foldl {st : List ResolvedHotspot × List FilteredPc} {done : List HotspotPc}
    (h : Resolving env st done) (rest : List HotspotPc) :
    Resolving env (rest.foldl (resolvePc env pcs) st) (done ++ rest) := by
  induction rest generalizing st done with
  | nil =>
      rw [List.append_nil]
      exact h
  | cons pc rest ih =>
      have hstep : Resolving env (resolvePc env pcs st pc) (done ++ [pc]) := h.step pc
      have hrest := ih hstep
      rw [List.append_assoc] at hrest
      exact hrest

theorem resolving (env : SourceEnv) (pcs : List HotspotPc) :
    Resolving env (resolveHotspots env pcs) pcs := by
  have hempty : Resolving env ([], []) [] :=
    ⟨List.Perm.nil, List.Sublist.refl [], by simp, by simp⟩
  exact resolving_foldl hempty pcs

end Resolve

/-! ## What the tree shows -/

theorem subperm_flatMap {α β : Type*} {f g : α → List β} {l : List α}
    (h : ∀ a ∈ l, List.Subperm (f a) (g a)) : List.Subperm (l.flatMap f) (l.flatMap g) := by
  induction l with
  | nil => exact List.Subperm.refl []
  | cons a l ih =>
      rw [List.forall_mem_cons] at h
      rw [List.flatMap_cons, List.flatMap_cons]
      exact h.1.append (ih h.2)

section Tree

variable {key : ResolvedHotspot → Text} {items : List ResolvedHotspot}

theorem flatMap_groupsBy_perm (key : ResolvedHotspot → Text) (items : List ResolvedHotspot) :
    ((groupsBy key items).flatMap Prod.snd).Perm items := by
  unfold groupsBy
  rw [tabulate_append, List.flatMap_map]
  exact flatMap_firsts_perm key items

theorem length_groupsBy_le (key : ResolvedHotspot → Text) (items : List ResolvedHotspot) :
    (groupsBy key items).length ≤ items.length := by
  unfold groupsBy
  rw [tabulate_append, List.length_map]
  have hsub : List.Subperm (firsts (items.map key)) (items.map key) :=
    (nodup_firsts _).subperm fun k hk => mem_firsts.mp hk
  have hle := hsub.length_le
  rwa [List.length_map] at hle

theorem mem_groupsBy {g : Group} (hg : g ∈ groupsBy key items) {item : ResolvedHotspot}
    (hitem : item ∈ g.2) : key item = g.1 ∧ item ∈ items := by
  unfold groupsBy at hg
  rw [tabulate_append] at hg
  obtain ⟨k, -, rfl⟩ := List.mem_map.mp hg
  obtain ⟨hmem, hk⟩ := List.mem_filter.mp hitem
  exact ⟨of_decide_eq_true hk, hmem⟩

theorem length_group_le {g : Group} (hg : g ∈ groupsBy key items) :
    g.2.length ≤ items.length := by
  unfold groupsBy at hg
  rw [tabulate_append] at hg
  obtain ⟨k, -, rfl⟩ := List.mem_map.mp hg
  exact List.length_filter_le _ items

/-- A choice of groups: some of them, and all if there are not more than `top`. -/
structure Choice (top : ℤ) (choose : List Group → List Group) : Prop where
  subperm : ∀ groups, List.Subperm (choose groups) groups
  perm : ∀ groups : List Group, groups.length ≤ top → (choose groups).Perm groups

theorem choice_sliceTo (top : ℤ) (le : Group → Group → Prop) [DecidableRel le] :
    Choice top fun groups => sliceTo (groups.insertionSort le) top := by
  constructor
  · intro groups
    have hshown := sliceTo_prefix (groups.insertionSort le) top
    exact hshown.sublist.subperm.trans (List.perm_insertionSort le groups).subperm
  · intro groups hlen
    rw [sliceTo_eq_self (by rwa [List.length_insertionSort])]
    exact List.perm_insertionSort le groups

theorem choice_topGroups (top : ℤ) : Choice top (topGroups top) := choice_sliceTo top _

theorem choice_topSources (top : ℤ) : Choice top (topSources top) := choice_sliceTo top _

/-- What the nodes of one level show, from what the nodes below show. -/
structure Shows {ν : Type*} (top : ℤ) (nodes : List ResolvedHotspot → List ν)
    (leaves : List ν → List ResolvedHotspot) : Prop where
  subperm : ∀ items, List.Subperm (leaves (nodes items)) items
  perm : ∀ items : List ResolvedHotspot, items.length ≤ top → (leaves (nodes items)).Perm items

theorem Shows.level {ν : Type*} {top : ℤ} {nodes : List ResolvedHotspot → List ν}
    {leaves : List ν → List ResolvedHotspot} (h : Shows top nodes leaves)
    {choose : List Group → List Group} (hc : Choice top choose) (key : ResolvedHotspot → Text) :
    Shows top (fun items => (choose (groupsBy key items)).map fun g => (g.1, nodes g.2))
      fun ns => ns.flatMap fun n => leaves n.2 := by
  constructor
  · intro items
    rw [List.flatMap_map]
    have hbelow : List.Subperm ((choose (groupsBy key items)).flatMap fun g => leaves (nodes g.2))
        ((choose (groupsBy key items)).flatMap Prod.snd) :=
      subperm_flatMap fun g _ => h.subperm g.2
    have hchosen : List.Subperm ((choose (groupsBy key items)).flatMap Prod.snd)
        ((groupsBy key items).flatMap Prod.snd) := by
      obtain ⟨l, hl, hsub⟩ := hc.subperm (groupsBy key items)
      exact (hl.flatMap_right Prod.snd).symm.subperm.trans (hsub.flatMap Prod.snd).subperm
    exact (hbelow.trans hchosen).trans (flatMap_groupsBy_perm key items).subperm
  · intro items hlen
    rw [List.flatMap_map]
    have hgroups := length_groupsBy_le key items
    have hchosen := hc.perm (groupsBy key items) (by omega)
    have hbelow : ((choose (groupsBy key items)).flatMap fun g => leaves (nodes g.2)).Perm
        ((choose (groupsBy key items)).flatMap Prod.snd) := by
      apply List.Perm.flatMap_left
      intro g hg
      have hle := length_group_le (hchosen.mem_iff.mp hg)
      exact h.perm g.2 (by omega)
    exact (hbelow.trans (hchosen.flatMap_right Prod.snd)).trans (flatMap_groupsBy_perm key items)

variable (env : SourceEnv) (top : ℤ)

theorem shows_sortItems : Shows top sortItems id :=
  ⟨fun items => (List.perm_insertionSort _ items).subperm,
    fun items _ => List.perm_insertionSort _ items⟩

def leaves (tree : List FunctionNode) : List ResolvedHotspot :=
  tree.flatMap fun fn => fn.2.flatMap fun lp => lp.2.flatMap fun st => st.2.flatMap Prod.snd

theorem shows_attributionTree : Shows top (attributionTree env top) leaves := by
  have hsource := (shows_sortItems top).level (choice_topSources top) (groupKeySource env)
  have hstatement := hsource.level (choice_topGroups top) (groupKeyStatement env)
  have hloop := hstatement.level (choice_topGroups top) groupKeyLoop
  exact hloop.level (choice_topGroups top) ResolvedHotspot.function

theorem mem_of_mem_topGroups {groups : List Group} {g : Group} (h : g ∈ topGroups top groups) :
    g ∈ groups := ((choice_topGroups top).subperm groups).subset h

theorem mem_of_mem_topSources {groups : List Group} {g : Group} (h : g ∈ topSources top groups) :
    g ∈ groups := ((choice_topSources top).subperm groups).subset h

/-- The lines above an instruction: its function, loop, statement and source line. -/
structure Labelled (env : SourceEnv) (fn loop statement source : Text)
    (item : ResolvedHotspot) : Prop where
  function : item.function = fn
  loop : item.loop.getD "(no loop)".toList = loop
  fragment : ∃ f, item.sourceFrame = some f ∧ source = sourceLabel env f ∧
    statement = "statement: \x60".toList ++ env.sourceStatementFragment f ++ ['\x60']

theorem ResolvedHotspot.Attributed.labelled {item : ResolvedHotspot} (h : item.Attributed env) :
    Labelled env item.function (groupKeyLoop item) (groupKeyStatement env item)
      (groupKeySource env item) item := by
  obtain ⟨-, f, hf, hfragment⟩ := h
  refine ⟨rfl, rfl, f, hf, ?_, ?_⟩
  · unfold groupKeySource
    rw [hf]
    rfl
  · unfold groupKeyStatement
    rw [hf]
    dsimp only
    rw [if_pos hfragment]

/-- From the lines of a tree down to an instruction. -/
theorem mem_attributionTree {resolved : List ResolvedHotspot} {fn : FunctionNode} {lp : LoopNode}
    {st : StatementNode} {src : Group} {item : ResolvedHotspot}
    (hfn : fn ∈ attributionTree env top resolved) (hlp : lp ∈ fn.2) (hst : st ∈ lp.2)
    (hsrc : src ∈ st.2) (hitem : item ∈ src.2) :
    item ∈ resolved ∧ item.function = fn.1 ∧ groupKeyLoop item = lp.1 ∧
      groupKeyStatement env item = st.1 ∧ groupKeySource env item = src.1 := by
  obtain ⟨g, hg, rfl⟩ := List.mem_map.mp hfn
  obtain ⟨g', hg', rfl⟩ := List.mem_map.mp hlp
  obtain ⟨g'', hg'', rfl⟩ := List.mem_map.mp hst
  obtain ⟨s, hs, rfl⟩ := List.mem_map.mp hsrc
  have hitem' : item ∈ s.2 := (List.perm_insertionSort _ s.2).mem_iff.mp hitem
  obtain ⟨hsource, h3⟩ := mem_groupsBy (mem_of_mem_topSources top hs) hitem'
  obtain ⟨hstatement, h2⟩ := mem_groupsBy (mem_of_mem_topGroups top hg'') h3
  obtain ⟨hloop, h1⟩ := mem_groupsBy (mem_of_mem_topGroups top hg') h2
  obtain ⟨hfunction, h0⟩ := mem_groupsBy (mem_of_mem_topGroups top hg) h1
  exact ⟨h0, hfunction, hloop, hstatement, hsource⟩

end Tree

/-! ## Printing -/

section Printing

theorem isSome_mapM {α β : Type} {f : α → Option β} {l : List α} (h : ∀ a ∈ l, (f a).isSome) :
    (l.mapM f).isSome := by
  induction l with
  | nil => rfl
  | cons a l ih =>
      rw [List.forall_mem_cons] at h
      obtain ⟨b, hb⟩ := Option.isSome_iff_exists.mp h.1
      obtain ⟨bs, hbs⟩ := Option.isSome_iff_exists.mp (ih h.2)
      rw [List.mapM_cons, hb, hbs]
      rfl

theorem isSome_nodeLines {ν : Type} {line : ν → Bool → Option (List Text)} {nodes : List ν}
    (h : ∀ node ∈ nodes, ∀ isLast, (line node isLast).isSome) : (nodeLines line nodes).isSome := by
  unfold nodeLines
  rw [Option.isSome_map]
  apply isSome_mapM
  intro p hp
  obtain ⟨i, hi, rfl⟩ := List.mem_mapIdx.mp hp
  exact h _ (List.getElem_mem hi) _

theorem isSome_pcLines {depth : ℕ} {items : List ResolvedHotspot}
    (h : ∀ item ∈ items, item.pc.entries ≠ []) : (pcLines depth items).isSome := by
  apply isSome_nodeLines
  intro item hitem isLast
  rw [Option.isSome_map]
  unfold pcLabel
  rw [Option.isSome_map, List.isSome_head?]
  simpa using h item hitem

theorem isSome_writeAttributionTree {env : SourceEnv} {top : ℤ} {resolved : List ResolvedHotspot}
    (h : ∀ item ∈ resolved, item.pc.entries ≠ []) :
    (writeAttributionTree env top resolved).isSome := by
  have hstatements : ∀ fn ∈ attributionTree env top resolved, ∀ lp ∈ fn.2, ∀ depth,
      (statementLines depth lp.2).isSome := by
    intro fn hfn lp hlp depth
    apply isSome_nodeLines
    intro st hst _
    rw [Option.isSome_map]
    apply isSome_nodeLines
    intro src hsrc _
    rw [Option.isSome_map]
    apply isSome_pcLines
    intro item hitem
    exact h item (mem_attributionTree env top hfn hlp hst hsrc hitem).1
  unfold writeAttributionTree
  rw [Option.isSome_map]
  apply isSome_nodeLines
  intro fn hfn _
  rw [Option.isSome_map]
  apply isSome_nodeLines
  intro lp hlp isLast
  split_ifs
  · rw [Option.isSome_map]
    exact hstatements fn hfn lp hlp 3
  · exact hstatements fn hfn lp hlp 2

end Printing

/-! ## The report -/

/-- Every entry is counted in one instruction, every instruction is shown or listed with a reason,
the filtered manifest keeps the entries of the instructions that can be shown, and the tree shows
them below the lines that name their place. -/
theorem attribution_accounts (env : SourceEnv) (top : ℤ) (entries : List HotpcEntry) :
    let pcs := aggregateHotspots entries
    let result := resolveHotspots env pcs
    let tree := attributionTree env top result.1
    ((pcs.map HotspotPc.key).Nodup ∧ (pcs.flatMap HotspotPc.entries).Perm entries ∧
      ∀ pc ∈ pcs, pc.Summed ∧ ∀ e ∈ pc.entries, e.key = pc.key) ∧
    Resolving env result pcs ∧
    (result.1.flatMap fun item => item.pc.entries).Perm
      (keptEntries (result.1.map fun item => item.pc.key) entries) ∧
    (List.Subperm (leaves tree) result.1 ∧
      (result.1.length ≤ top → (leaves tree).Perm result.1)) ∧
    (∀ fn ∈ tree, ∀ lp ∈ fn.2, ∀ st ∈ lp.2, ∀ src ∈ st.2, ∀ item ∈ src.2,
      Labelled env fn.1 lp.1 st.1 src.1 item) ∧
    (writeAttributionTree env top result.1).isSome := by
  intro pcs result tree
  have hresolving : Resolving env result pcs := resolving env pcs
  have hpc : ∀ item ∈ result.1, item.pc ∈ pcs :=
    fun item hitem => hresolving.order.subset (List.mem_map_of_mem hitem)
  have hshows := shows_attributionTree env top
  refine ⟨⟨nodup_keys_aggregateHotspots entries, entries_aggregateHotspots_perm entries, ?_⟩,
    hresolving, ?_, ⟨hshows.subperm result.1, hshows.perm result.1⟩, ?_, ?_⟩
  · exact fun pc h => ⟨summed_of_mem h, fun e he => key_of_mem h he⟩
  · have hkept := entries_perm_keptEntries hresolving.order.subperm
    rw [List.flatMap_map, List.map_map] at hkept
    exact hkept
  · intro fn hfn lp hlp st hst src hsrc item hitem
    obtain ⟨hmem, hfunction, hloop, hstatement, hsource⟩ :=
      mem_attributionTree env top hfn hlp hst hsrc hitem
    rw [← hfunction, ← hloop, ← hstatement, ← hsource]
    exact (hresolving.attributed item hmem).labelled
  · apply isSome_writeAttributionTree
    exact fun item hitem => entries_ne_nil_of_mem (hpc item hitem)

def smallAttributionEntry (tid pcOffset sampleCount : ℤ) : HotpcEntry where
  tid := tid
  rank := 1
  sampleCount := sampleCount
  moduleId := 0
  pcOffset := pcOffset
  path := "/bin/app".toList
  paretoFront := 0
  candidateScore := 0
  candidateMetric := []
  avgMemLatency := .finite 0
  latTotalSum := 0
  latIssueSum := 0
  latXlatSum := 0
  latExecSum := 0
  l1dRefillCount := 0
  llcMissCount := 0
  tlbWalkCount := 0
  remoteAccessCount := 0

def smallSourceEnv : SourceEnv where
  pathExists := fun _ => true
  underRoot := none
  symbolizeModule := fun _ _ _ => some [⟨"sum".toList, "/src/app.c".toList, 7, 3, []⟩]
  disassembleInstruction := fun _ offset =>
    if offset = 32 then some ⟨"stp x29, x30, [sp, #-16]!".toList, "stp".toList,
      "x29, x30, [sp, #-16]!".toList⟩
    else some ⟨"ldr x0, [x1]".toList, "ldr".toList, "x0, [x1]".toList⟩
  loopLabel := fun _ => none
  statementLabel := fun _ => none
  sourceStatementFragment := fun _ => "s += a[i]".toList
  displayPath := id

theorem attribution_accounts_small :
    let entries := [smallAttributionEntry 1 16 3, smallAttributionEntry 2 32 9,
      smallAttributionEntry 2 16 4]
    let result := resolveHotspots smallSourceEnv (aggregateHotspots entries)
    (result.1.map fun item => (item.pc.key.pcOffset, item.pc.sampleCountSum)) = [(16, 7)] ∧
    result.2.map FilteredPc.reason = ["function_prologue_callee_saved_spill".toList] ∧
    (leaves (attributionTree smallSourceEnv 20 result.1)).Perm result.1 := by
  intro entries result
  have hresult : (result.1.map fun item => (item.pc.key.pcOffset, item.pc.sampleCountSum)) =
      [(16, 7)] ∧ result.2.map FilteredPc.reason =
        ["function_prologue_callee_saved_spill".toList] := by
    decide +kernel
  have hlen := congrArg List.length hresult.1
  rw [List.length_map] at hlen
  have hall := (attribution_accounts smallSourceEnv 20 entries).2.2.2.1.2
  refine ⟨hresult.1, hresult.2, hall ?_⟩
  change (result.1.length : ℤ) ≤ 20
  rw [hlen]
  decide

end RdSpeTool.Attribution
