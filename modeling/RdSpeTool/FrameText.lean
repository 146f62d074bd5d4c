import Mathlib.Data.Char
import Mathlib.Data.List.Lex
import Mathlib.Data.List.ReduceOption
import Mathlib.Data.Prod.Lex
import RdSpeTool.CfiUnwinder
import RdSpeTool.GeneralFormat
import RdSpeTool.SourceFrames

/-!
# Frames as text

`resolve_dwarf_pairs.py` turns each address of an unwound stack into a line of text, through
`addr2line` for the main binary and through the symbol tables for other modules. The reports read
function, module and source line back out of this text.
-/

namespace RdSpeTool

open PyText GeneralFormat

namespace Resolver

/-! ## Modules -/

structure ModuleEntry where
  moduleId : ℤ
  path : Text
  vmStart : ℤ
  vmEnd : ℤ
  fileOffset : ℤ
  deriving DecidableEq

def ModuleEntry.contains (m : ModuleEntry) (ip : ℤ) : Bool := m.vmStart ≤ ip ∧ ip < m.vmEnd

def ModuleEntry.offset (m : ModuleEntry) (ip : ℤ) : ℤ := ip - m.vmStart + m.fileOffset

def findModule (modules : List ModuleEntry) (ip : ℤ) : Option ModuleEntry :=
  let matching := modules.filter (·.contains ip)
  let executable := matching.filter fun m => m.path ≠ [] ∧ m.path.head? ≠ some '['
  executable.head?.or matching.head?

/-! ## Paths -/

def pathName (path : Text) : Text :=
  ((path.splitOn '/').filter fun part => part ≠ [] ∧ part ≠ ['.']).getLast?.getD []

/-- `Path(path).suffix`: from the last dot, unless it is the first or the last character. -/
def pathSuffix (path : Text) : Text :=
  let name := pathName path
  let tail := name.reverse.takeWhile (· ≠ '.')
  if tail = [] ∨ name.length ≤ tail.length + 1 then [] else '.' :: tail.reverse

def headerSuffixes : List Text :=
  [".h".toList, ".hh".toList, ".hpp".toList, ".hxx".toList]

def sourceSuffixes : List Text :=
  [".c".toList, ".cc".toList, ".cpp".toList, ".cxx".toList, ".C".toList] ++ headerSuffixes ++
    [".f".toList, ".F".toList, ".for".toList, ".FOR".toList, ".f90".toList, ".F90".toList,
      ".f95".toList, ".F95".toList]

/-- `normalizePath` resolves a path in the file system. -/
def displaySourcePath (normalizePath : Text → Text) (path : Text) : Text :=
  if path = [] then []
  else if ["??".toList, "??:?".toList, "??:0".toList].contains path then path
  else if headerSuffixes.contains (pathSuffix path) then normalizePath path
  else if sourceSuffixes.contains (pathSuffix path) then pathName path
  else normalizePath path

def displayModulePath (path : Text) : Text :=
  if path = [] then "external".toList
  else if path.head? = some '[' then path
  else pathName path

/-! ## Symbols -/

structure ElfSymbol where
  func : Bool
  value : ℕ
  name : Text

/-- What the resolver asks about files: paths resolved, the output of `addr2line` for offsets in the
main binary, and the symbol tables of a module. -/
structure SymbolEnv where
  loadBias : ℤ
  mainSize : ℤ
  binary : Text
  modules : List ModuleEntry
  resolvePath : Text → Text
  addr2line : List ℤ → Option (List Text)
  symbols : Text → Option (List ElfSymbol)

def loadFunctionSymbols (env : SymbolEnv) (modulePath : Text) : List (ℕ × Text) :=
  if (pathName modulePath).head? = some '[' then []
  else
    (((env.symbols modulePath).getD []).filterMap fun s =>
      if s.func = false ∨ s.value = 0 ∨ s.name = [] then none else some (s.value, s.name)
    ).insertionSort fun a b => toLex a ≤ toLex b

def nearestSymbolName (symbols : List (ℕ × Text)) (offset : ℤ) : Option Text :=
  ((symbols.takeWhile fun s => (s.1 : ℤ) ≤ offset).getLast?).map Prod.snd

/-! ## Printing frames -/

def hexText (x : ℤ) : Text := '0' :: 'x' :: formatInt 16 x

/-- The pairs of lines of an `addr2line` run, each with its address. A pair without an address is an
`IndexError`; a missing location line counts as unknown. -/
def pairFrames : List ℤ → List Text → Option (List (ℤ × Text))
  | _, [] => some []
  | [], _ :: _ => none
  | ip :: _, [fn] => some [(ip, strip fn ++ '@' :: "??:?".toList)]
  | ip :: ips, fn :: loc :: lines =>
      (pairFrames ips lines).map ((ip, strip fn ++ '@' :: strip loc) :: ·)

def symbolizeFrames (env : SymbolEnv) (chain : List ℤ) : Option (List (ℤ × Text)) :=
  if chain = [] then some []
  else
    let offsets := chain.mapIdx fun i ip =>
      if i > 0 then max 0 (ip - env.loadBias - 4) else ip - env.loadBias
    match env.addr2line offsets with
    | none => some (chain.map fun ip => (ip, hexText ip))
    | some lines => pairFrames chain lines

def externalText (function label : Text) (offset : ℤ) : Text :=
  function ++ " [".toList ++ label ++ "] at ".toList ++ hexText offset ++ " (".toList ++ label ++
    " + ".toList ++ hexText offset ++ ")".toList

def symbolizeAddress (env : SymbolEnv) (index : ℕ) (ip : ℤ) : Option (List (ℤ × Text)) :=
  let adjustedIp := if index > 0 then ip - 4 else ip
  match findModule env.modules adjustedIp with
  | none =>
      let mainOffset := adjustedIp - env.loadBias
      if 0 ≤ mainOffset ∧ mainOffset < env.mainSize then symbolizeFrames env [adjustedIp]
      else
        some [(ip, externalText "external frame".toList "module_unresolved".toList adjustedIp)]
  | some m =>
      if env.resolvePath m.path = env.binary then symbolizeFrames env [adjustedIp]
      else
        let offset := m.offset adjustedIp
        let function := (nearestSymbolName (loadFunctionSymbols env m.path) offset).getD
          "unknown procedure".toList
        some [(ip, externalText function (displayModulePath m.path) offset)]

def symbolizeChain (env : SymbolEnv) (chain : List ℤ) : Option (List (ℤ × Text)) :=
  chain.zipIdx.foldlM (fun frames p => (symbolizeAddress env p.2 p.1).map (frames ++ ·)) []

/-! ## Reading frames -/

structure FrameInfo where
  text : Text
  function : Text
  module : Text
  source : Text
  displaySource : Text
  line : ℕ
  deriving DecidableEq

/-- `\[(?P<module>[^\]]+)\] at 0x[0-9a-fA-F]` behind a blank. -/
def matchModule : Text → Option Text
  | ' ' :: '[' :: s =>
      let label := s.takeWhile (· ≠ ']')
      match s.dropWhile (· ≠ ']') with
      | ']' :: ' ' :: 'a' :: 't' :: ' ' :: '0' :: 'x' :: d :: _ =>
          if label ≠ [] ∧ CText.digitValue d < 16 then some label else none
      | _ => none
  | _ => none

/-- The shortest function name that a module follows. -/
def matchDso (function : Text) : Text → Option (Text × Text)
  | [] => none
  | c :: s =>
      match matchModule (c :: s) with
      | some label => some (function, label)
      | none => if c = '\n' then none else matchDso (function ++ [c]) s

/-- `(?P<line>\d+)(?::\d+)?$`. -/
def matchLine (s : Text) : Option ℕ :=
  let line := s.takeWhile isdecimal
  let atEnd := fun t : Text => t = [] ∨ t = ['\n']
  if line = [] then none
  else
    match s.dropWhile isdecimal with
    | ':' :: t =>
        if t.takeWhile isdecimal ≠ [] ∧ atEnd (t.dropWhile isdecimal) then some (decimalValue line)
        else none
    | t => if atEnd t then some (decimalValue line) else none

/-- `^(?P<source>.*):(?P<line>\d+)(?::\d+)?$`: the longest source that a line number follows. -/
def matchSource (source : Text) : Text → Option (Text × ℕ)
  | [] => none
  | c :: s =>
      match if c = '\n' then none else matchSource (source ++ [c]) s with
      | some p => some p
      | none => if c = ':' then (matchLine s).map fun line => (source, line) else none

def beforeDiscriminator : Text → Text
  | [] => []
  | c :: s =>
      if " (discriminator".toList.isPrefixOf (c :: s) then [] else c :: beforeDiscriminator s

def locationInfo (normalizePath : Text → Text) (text function loc : Text) : FrameInfo :=
  match matchSource [] loc with
  | some (source, line) =>
      ⟨text, function, [], source, displaySourcePath normalizePath source, line⟩
  | none => ⟨text, function, [], loc, displaySourcePath normalizePath loc, 0⟩

def parseFrameText (normalizePath : Text → Text) (text : Text) : FrameInfo :=
  match matchDso [] text with
  | some (fn, label) =>
      ⟨text, if strip fn = [] then "unknown procedure".toList else strip fn, strip label, [], [], 0⟩
  | none =>
      if '@' ∈ text then
        let (fn, loc) := splitOnce '@' text
        locationInfo normalizePath text (if strip fn = [] then "??".toList else strip fn)
          (beforeDiscriminator (strip loc))
      else ⟨text, text, [], [], [], 0⟩

def frameFunctions (normalizePath : Text → Text) (frames : List (ℤ × Text)) : List Text :=
  (frames.map fun frame => (parseFrameText normalizePath frame.2).function).filter fun fn =>
    fn ≠ [] ∧ fn ≠ "??".toList

/-! ## Modules and functions -/

theorem matchModule_label {s label : Text} (h : matchModule s = some label) : ']' ∉ label := by
  unfold matchModule at h
  split at h
  · rename_i t
    dsimp only at h
    split at h
    · split_ifs at h
      obtain rfl := Option.some.inj h
      intro hmem
      simpa using List.mem_takeWhile_imp hmem
    · cases h
  · cases h

theorem matchDso_label {acc s fn label : Text} (h : matchDso acc s = some (fn, label)) :
    ']' ∉ label := by
  induction s generalizing acc with
  | nil => cases h
  | cons c s ih =>
      unfold matchDso at h
      cases hm : matchModule (c :: s) with
      | some found =>
          rw [hm] at h
          obtain ⟨-, rfl⟩ := Prod.mk.inj (Option.some.inj h)
          exact matchModule_label hm
      | none =>
          rw [hm] at h
          dsimp only at h
          split_ifs at h
          exact ih h

theorem matchModule_eq {label : Text} (hne : label ≠ []) (hlabel : ']' ∉ label) {d : Char}
    (hd : CText.digitValue d < 16) (rest : Text) :
    matchModule (' ' :: '[' :: (label ++ "] at 0x".toList ++ d :: rest)) = some label := by
  have hall : ∀ c ∈ label, decide (c ≠ ']') = true := by
    intro c hc
    exact decide_eq_true fun he => hlabel (he ▸ hc)
  have htake : (label ++ "] at 0x".toList ++ d :: rest).takeWhile (· ≠ ']') = label := by
    rw [List.append_assoc, List.takeWhile_append_of_pos hall]
    exact List.append_nil label
  have hdrop : (label ++ "] at 0x".toList ++ d :: rest).dropWhile (· ≠ ']') =
      ']' :: ' ' :: 'a' :: 't' :: ' ' :: '0' :: 'x' :: d :: rest := by
    rw [List.append_assoc, List.dropWhile_append_of_pos hall]
    rfl
  rw [matchModule.eq_1, htake, hdrop]
  exact if_pos ⟨hne, hd⟩

/-- A function name without brackets is passed over. -/
theorem matchDso_append {fn : Text} (hbracket : '[' ∉ fn) (hline : '\n' ∉ fn) (acc rest : Text) :
    matchDso acc (fn ++ ' ' :: rest) = matchDso (acc ++ fn) (' ' :: rest) := by
  induction fn generalizing acc with
  | nil => rw [List.nil_append, List.append_nil]
  | cons c fn ih =>
      rw [List.mem_cons, not_or] at hbracket hline
      have hnone : matchModule (c :: (fn ++ ' ' :: rest)) = none := by
        unfold matchModule
        split
        · rename_i s he
          obtain ⟨-, he⟩ := List.cons.inj he
          cases fn with
          | nil => exact absurd (List.cons.inj he).1 (by decide)
          | cons d fn =>
              obtain ⟨rfl, -⟩ := List.cons.inj he
              exact absurd List.mem_cons_self hbracket.2
        · rfl
      rw [List.cons_append, matchDso, hnone]
      dsimp only
      rw [if_neg (Ne.symm hline.1), ih hbracket.2 hline.2, List.append_assoc, List.singleton_append]

theorem hexText_head (x : ℤ) : ∃ d rest, hexText x = '0' :: 'x' :: d :: rest ∧
    (0 ≤ x → CText.digitValue d < 16) := by
  unfold hexText formatInt
  by_cases hneg : x < 0
  · rw [if_pos hneg]
    exact ⟨'-', _, rfl, fun h => absurd h (not_le.mpr hneg)⟩
  · rw [if_neg hneg]
    obtain ⟨d, s, hs, hd⟩ := @CText.toDigits_head 16 (by decide) (by decide) x.natAbs
    exact ⟨d, s, by rw [hs], fun _ => hd⟩

/-- No module that is read has a closing bracket. -/
theorem parseFrameText_module (normalizePath : Text → Text) (text : Text) :
    ']' ∉ (parseFrameText normalizePath text).module := by
  unfold parseFrameText
  split
  · rename_i fn label hm
    intro hmem
    exact matchDso_label hm (mem_of_mem_strip hmem)
  · split_ifs
    · dsimp only [locationInfo]
      split <;> exact List.not_mem_nil
    · exact List.not_mem_nil

/-- The name of a module is read back exactly when it has no closing bracket. -/
theorem parseFrameText_external (normalizePath : Text → Text) {fn label : Text} {offset : ℤ}
    (hbracket : '[' ∉ fn) (hline : '\n' ∉ fn) (hfn : fn ≠ []) (hstrip : strip fn = fn)
    (hlabel : label ≠ []) (hlstrip : strip label = label) (hoff : 0 ≤ offset) :
    parseFrameText normalizePath (externalText fn label offset) =
      ⟨externalText fn label offset, fn, label, [], [], 0⟩ ↔ ']' ∉ label := by
  constructor
  · intro h
    have hmod := parseFrameText_module normalizePath (externalText fn label offset)
    rw [h] at hmod
    exact hmod
  · intro hno
    obtain ⟨d, rest, hhex, hd⟩ := hexText_head offset
    have htext : externalText fn label offset = fn ++ ' ' :: '[' :: (label ++ "] at 0x".toList ++
        d :: (rest ++ " (".toList ++ label ++ " + ".toList ++ hexText offset ++ ")".toList)) := by
      simp [externalText, hhex]
    have hread : matchDso [] (externalText fn label offset) = some (fn, label) := by
      rw [htext, matchDso_append hbracket hline, matchDso, matchModule_eq hlabel hno (hd hoff)]
      rfl
    rw [parseFrameText, hread]
    dsimp only
    rw [hlstrip, hstrip, if_neg hfn]

/-! ## Source lines -/

/-- A location as `addr2line` prints it: `?` stands for a line it does not know, and `??:0` for an
address it does not know. -/
structure SourceLocation where
  file : Text
  line : Option ℕ
  discriminator : Option ℕ

def SourceLocation.lineText (loc : SourceLocation) : Text :=
  (loc.line.map (Nat.toDigits 10)).getD ['?']

def SourceLocation.print (loc : SourceLocation) : Text :=
  loc.file ++ ':' :: (loc.lineText ++ (loc.discriminator.map fun n =>
    " (discriminator ".toList ++ Nat.toDigits 10 n ++ [')']).getD [])

/-- A file name that the patterns of the resolver leave in one piece. -/
structure PlainFile (file : Text) : Prop where
  line : '\n' ∉ file
  first : ∀ c ∈ file.head?, isspace c = false
  discriminator : ¬ " (discriminator".toList <:+: file

theorem strip_of_trimmed {s : Text} (hfirst : ∀ c ∈ s.head?, isspace c = false)
    (hlast : ∀ c ∈ s.getLast?, isspace c = false) : strip s = s := by
  have hdrop : ∀ t : Text, (∀ c ∈ t.head?, isspace c = false) → t.dropWhile isspace = t := by
    intro t ht
    cases t with
    | nil => rfl
    | cons c t => exact List.dropWhile_cons_of_neg (by simp [ht c rfl])
  unfold strip
  rw [hdrop s hfirst, hdrop s.reverse (by rwa [List.head?_reverse]), List.reverse_reverse]

theorem decimalValue_toDigits (n : ℕ) : decimalValue (Nat.toDigits 10 n) = n := by
  have hfold : ∀ s : Text, (∀ c ∈ s, isdecimal c = true) → ∀ v : ℕ,
      s.foldl (fun n c => 10 * n + (c.toNat - 48)) v =
        s.foldl (fun n c => 10 * n + CText.digitValue c) v := by
    intro s
    induction s with
    | nil => exact fun _ _ => rfl
    | cons c s ih =>
        intro hs v
        rw [List.forall_mem_cons] at hs
        have hc : c.toNat - 48 = CText.digitValue c := by
          obtain ⟨h1, h2⟩ := toNat_of_isdecimal hs.1
          have hle : '0' ≤ c ∧ c ≤ '9' := by
            simp only [Char.le_def, UInt32.le_iff_toNat_le]
            exact ⟨h1, h2⟩
          rw [CText.digitValue, if_pos hle]
        rw [List.foldl_cons, List.foldl_cons, hc, ih hs.2]
  have hvalue := hfold (Nat.toDigits 10 n) (fun c hc => isdecimal_of_mem hc) 0
  exact hvalue.trans (CText.digitsValue_toDigits (by decide) (by decide) n)

theorem matchModule_infix {s label : Text} (h : matchModule s = some label) :
    "] at 0x".toList <:+: s := by
  unfold matchModule at h
  split at h
  · rename_i t
    dsimp only at h
    split at h
    · rename_i d rest hdrop
      refine ⟨' ' :: '[' :: t.takeWhile (· ≠ ']'), d :: rest, ?_⟩
      have hsplit := List.takeWhile_append_dropWhile (p := (· ≠ ']')) (l := t)
      rw [hdrop] at hsplit
      simpa using hsplit
    · cases h
  · cases h

theorem matchDso_eq_some {acc s : Text} {p : Text × Text} (h : matchDso acc s = some p) :
    "] at 0x".toList <:+: s := by
  induction s generalizing acc with
  | nil => cases h
  | cons c s ih =>
      unfold matchDso at h
      cases hm : matchModule (c :: s) with
      | some label => exact matchModule_infix hm
      | none =>
          rw [hm] at h
          dsimp only at h
          split_ifs at h
          exact (ih h).trans (List.suffix_cons c s).isInfix

theorem matchLine_toDigits (n : ℕ) : matchLine (Nat.toDigits 10 n) = some n := by
  have hall : ∀ c ∈ Nat.toDigits 10 n, isdecimal c = true := fun c hc => isdecimal_of_mem hc
  unfold matchLine
  rw [List.takeWhile_eq_self_iff.mpr hall, List.dropWhile_eq_nil_iff.mpr hall,
    if_neg Nat.toDigits_ne_nil, decimalValue_toDigits]
  rfl

/-- No line number ends in a question mark. -/
theorem matchLine_unknown (s : Text) : matchLine (s ++ ['?']) = none := by
  have hend : ∀ t : Text, t ++ ['?'] ≠ ['\n'] := by
    intro t he
    have hlast := congrArg List.getLast? he
    rw [List.getLast?_concat] at hlast
    exact absurd (Option.some.inj hlast) (by decide)
  have hdrop : ∀ t : Text, ∃ u, (t ++ ['?']).dropWhile isdecimal = u ++ ['?'] := by
    intro t
    rw [List.dropWhile_append]
    split_ifs
    · exact ⟨[], rfl⟩
    · exact ⟨_, rfl⟩
  unfold matchLine
  dsimp only
  split_ifs
  · rfl
  · obtain ⟨u, hu⟩ := hdrop s
    rw [hu]
    split
    · rename_i t he
      cases u with
      | nil => exact absurd (List.cons.inj he).1 (by decide)
      | cons c u =>
          have ht : u ++ ['?'] = t := (List.cons.inj he).2
          obtain ⟨v, hv⟩ := hdrop u
          rw [← ht, hv, if_neg]
          rintro ⟨-, h | h⟩
          · exact absurd h (by simp)
          · exact hend v h
    · rw [if_neg]
      rintro (h | h)
      · exact absurd h (by simp)
      · exact hend u h

theorem matchSource_of_notMem {s : Text} (h : ':' ∉ s) (source : Text) :
    matchSource source s = none := by
  induction s generalizing source with
  | nil => rfl
  | cons c s ih =>
      rw [List.mem_cons, not_or] at h
      rw [matchSource, ih h.2, ite_self]
      exact if_neg (Ne.symm h.1)

theorem colon_notMem_toDigits (n : ℕ) : ':' ∉ Nat.toDigits 10 n := by
  intro hmem
  obtain ⟨-, h2⟩ := toNat_of_isdecimal (isdecimal_of_mem hmem)
  exact absurd h2 (by decide)

theorem matchSource_line {file : Text} (hline : '\n' ∉ file) (n : ℕ) (source : Text) :
    matchSource source (file ++ ':' :: Nat.toDigits 10 n) = some (source ++ file, n) := by
  induction file generalizing source with
  | nil =>
      rw [List.nil_append, List.append_nil, matchSource,
        matchSource_of_notMem (colon_notMem_toDigits n), ite_self, matchLine_toDigits]
      rfl
  | cons c file ih =>
      rw [List.mem_cons, not_or] at hline
      rw [List.cons_append, matchSource, if_neg (Ne.symm hline.1), ih hline.2, List.append_assoc,
        List.singleton_append]

theorem matchSource_unknown (s source : Text) : matchSource source (s ++ ['?']) = none := by
  induction s generalizing source with
  | nil => exact matchSource_of_notMem (by decide) source
  | cons c s ih =>
      rw [List.cons_append, matchSource, ih, ite_self, matchLine_unknown]
      exact ite_self _

/-- Neither the colon nor the line belongs to the mark of a discriminator. -/
theorem beforeDiscriminator_append {file tail : Text}
    (hfile : ¬ " (discriminator".toList <:+: file) (rest : Text)
    (hrest : beforeDiscriminator (':' :: rest) = ':' :: tail) :
    beforeDiscriminator (file ++ ':' :: rest) = file ++ ':' :: tail := by
  induction file with
  | nil => exact hrest
  | cons c file ih =>
      have htail : ¬ " (discriminator".toList <:+: file :=
        fun h => hfile (h.trans (List.suffix_cons c file).isInfix)
      have hhead : ¬ " (discriminator".toList.isPrefixOf (c :: (file ++ ':' :: rest)) = true := by
        intro h
        rw [List.isPrefixOf_iff_prefix] at h
        obtain ⟨u, hu⟩ := h
        rw [← List.cons_append] at hu
        rcases List.append_eq_append_iff.mp hu with ⟨v, hv, -⟩ | ⟨v, hv, hv'⟩
        · exact hfile ⟨[], v, hv.symm⟩
        · cases v with
          | nil => exact hfile ⟨[], [], by rw [hv]; simp⟩
          | cons d v =>
              obtain ⟨rfl, -⟩ := List.cons.inj hv'
              have hcolon : ':' ∈ " (discriminator".toList := by
                rw [hv]
                simp
              exact absurd hcolon (by decide)
      rw [List.cons_append, beforeDiscriminator, if_neg hhead, ih htail, List.cons_append]

theorem beforeDiscriminator_mark {s : Text} (h : ' ' ∉ s) (mark : Text)
    (hmark : mark = [] ∨ " (discriminator".toList <+: mark) :
    beforeDiscriminator (s ++ mark) = s := by
  induction s with
  | nil =>
      rcases hmark with rfl | hmark
      · rfl
      · rw [List.nil_append]
        cases mark with
        | nil => exact absurd (List.prefix_nil.mp hmark) (by decide)
        | cons c mark => rw [beforeDiscriminator, if_pos (List.isPrefixOf_iff_prefix.mpr hmark)]
  | cons c s ih =>
      rw [List.mem_cons, not_or] at h
      have hhead : ¬ " (discriminator".toList.isPrefixOf (c :: (s ++ mark)) = true := by
        intro hpre
        rw [List.isPrefixOf_iff_prefix] at hpre
        exact h.1 (List.cons_prefix_cons.mp hpre).1
      rw [List.cons_append, beforeDiscriminator, if_neg hhead, ih h.2]

namespace SourceLocation

variable (loc : SourceLocation)

theorem lineText_visible : ∀ c ∈ loc.lineText, c ≠ ' ' ∧ isspace c = false := by
  intro c hc
  unfold lineText at hc
  cases hline : loc.line with
  | none =>
      rw [hline, Option.map_none, Option.getD_none] at hc
      rw [List.mem_singleton.mp hc]
      decide
  | some n =>
      rw [hline, Option.map_some, Option.getD_some] at hc
      obtain ⟨h1, h2⟩ := toNat_of_isdecimal (isdecimal_of_mem hc)
      refine ⟨?_, isspace_of_ascii (by omega) (by omega)⟩
      rintro rfl
      exact absurd h1 (by decide)

theorem lineText_ne_nil : loc.lineText ≠ [] := by
  unfold lineText
  cases loc.line with
  | none => exact List.cons_ne_nil _ _
  | some n => exact Nat.toDigits_ne_nil

theorem strip_print (hfirst : ∀ c ∈ loc.file.head?, isspace c = false) :
    strip loc.print = loc.print := by
  apply strip_of_trimmed
  · intro c hc
    unfold print at hc
    cases hfile : loc.file with
    | nil =>
        rw [hfile] at hc
        obtain rfl := Option.some.inj hc
        decide
    | cons d file =>
        rw [hfile] at hc
        exact hfirst c (hfile ▸ hc)
  · intro c hc
    unfold print at hc
    cases hd : loc.discriminator with
    | none =>
        rw [hd, Option.map_none, Option.getD_none, List.append_nil,
          List.getLast?_append_of_ne_nil _ (List.cons_ne_nil _ _),
          List.getLast?_cons_of_ne_nil loc.lineText_ne_nil] at hc
        exact (loc.lineText_visible c (List.mem_of_getLast? hc)).2
    | some n =>
        rw [hd, Option.map_some, Option.getD_some, ← List.cons_append, ← List.append_assoc,
          ← List.append_assoc, List.getLast?_concat] at hc
        obtain rfl := Option.some.inj hc
        decide

theorem beforeDiscriminator_print (hfile : ¬ " (discriminator".toList <:+: loc.file) :
    beforeDiscriminator loc.print = loc.file ++ ':' :: loc.lineText := by
  apply beforeDiscriminator_append hfile
  rw [← List.cons_append]
  apply beforeDiscriminator_mark
  · rw [List.mem_cons, not_or]
    exact ⟨by decide, fun hmem => (loc.lineText_visible ' ' hmem).1 rfl⟩
  · cases loc.discriminator with
    | none => exact .inl rfl
    | some n => exact .inr ⟨_, List.append_assoc _ _ _ |>.symm⟩

end SourceLocation

theorem locationInfo_function (normalizePath : Text → Text) (text function loc : Text) :
    (locationInfo normalizePath text function loc).function = function := by
  unfold locationInfo
  split <;> rfl

theorem parseFrameText_main_eq (normalizePath : Text → Text) {fn : Text} {loc : SourceLocation}
    (hat : '@' ∉ fn) (hfn : fn ≠ []) (hstrip : strip fn = fn) (hfile : PlainFile loc.file)
    (htag : ¬ "] at 0x".toList <:+: fn ++ '@' :: loc.print) :
    parseFrameText normalizePath (fn ++ '@' :: loc.print) =
      locationInfo normalizePath (fn ++ '@' :: loc.print) fn (loc.file ++ ':' :: loc.lineText) := by
  have hdso : matchDso [] (fn ++ '@' :: loc.print) = none := by
    cases hm : matchDso [] (fn ++ '@' :: loc.print) with
    | none => rfl
    | some p => exact absurd (matchDso_eq_some hm) htag
  rw [parseFrameText, hdso]
  dsimp only
  rw [if_pos (by simp), splitOnce_append hat]
  dsimp only
  rw [hstrip, if_neg hfn, loc.strip_print hfile.first,
    loc.beforeDiscriminator_print hfile.discriminator]

/-- A frame of the main binary is read back exactly when its line is printed as a number. -/
theorem parseFrameText_main (normalizePath : Text → Text) {fn : Text} {loc : SourceLocation}
    (hat : '@' ∉ fn) (hfn : fn ≠ []) (hstrip : strip fn = fn) (hfile : PlainFile loc.file)
    (htag : ¬ "] at 0x".toList <:+: fn ++ '@' :: loc.print) :
    parseFrameText normalizePath (fn ++ '@' :: loc.print) =
      ⟨fn ++ '@' :: loc.print, fn, [], loc.file, displaySourcePath normalizePath loc.file,
        loc.line.getD 0⟩ ↔ loc.line.isSome := by
  rw [parseFrameText_main_eq normalizePath hat hfn hstrip hfile htag]
  cases hline : loc.line with
  | none =>
      have htext : loc.file ++ ':' :: loc.lineText = (loc.file ++ [':']) ++ ['?'] := by
        simp [SourceLocation.lineText, hline]
      have hinfo : locationInfo normalizePath (fn ++ '@' :: loc.print) fn
          (loc.file ++ ':' :: loc.lineText) = ⟨fn ++ '@' :: loc.print, fn, [],
            loc.file ++ ':' :: loc.lineText,
            displaySourcePath normalizePath (loc.file ++ ':' :: loc.lineText), 0⟩ := by
        unfold locationInfo
        rw [htext, matchSource_unknown]
      rw [hinfo]
      refine iff_of_false (fun h => ?_) (by decide)
      exact absurd (congrArg FrameInfo.source h) (by simp)
  | some n =>
      have htext : loc.lineText = Nat.toDigits 10 n := by
        rw [SourceLocation.lineText, hline, Option.map_some, Option.getD_some]
      refine iff_of_true ?_ rfl
      unfold locationInfo
      rw [htext, matchSource_line hfile.line, List.nil_append]
      rfl

/-- An address for which `addr2line` failed is its own text. -/
theorem parseFrameText_hexText (normalizePath : Text → Text) (x : ℤ) :
    parseFrameText normalizePath (hexText x) = ⟨hexText x, hexText x, [], [], [], 0⟩ := by
  have hdigit : ∀ n, ∀ c ∈ Nat.toDigits 16 n, c ≠ ' ' ∧ c ≠ '@' := by
    intro n c hc
    have hlt := CText.digitValue_lt_of_mem (by decide) le_rfl hc
    constructor <;> (rintro rfl; exact absurd hlt (by decide))
  have hplain : ∀ c ∈ hexText x, c ≠ ' ' ∧ c ≠ '@' := by
    unfold hexText formatInt
    intro c hc
    rw [List.mem_cons, List.mem_cons] at hc
    rcases hc with rfl | rfl | hc
    · decide
    · decide
    split_ifs at hc
    · rcases List.mem_cons.mp hc with rfl | hc
      · decide
      · exact hdigit _ c hc
    · exact hdigit _ c hc
  have hdso : matchDso [] (hexText x) = none := by
    cases hm : matchDso [] (hexText x) with
    | none => rfl
    | some p => exact absurd rfl (hplain ' ' ((matchDso_eq_some hm).subset (by decide))).1
  rw [parseFrameText, hdso]
  exact if_neg fun hmem => (hplain '@' hmem).2 rfl

/-! ## Symbol tables -/

theorem takeWhile_eq_filter {α : Type*} {p : α → Bool} {l : List α}
    (h : l.Pairwise fun a b => p b = true → p a = true) : l.takeWhile p = l.filter p := by
  induction l with
  | nil => rfl
  | cons a l ih =>
      rw [List.pairwise_cons] at h
      by_cases ha : p a = true
      · rw [List.takeWhile_cons_of_pos ha, List.filter_cons_of_pos ha, ih h.2]
      · rw [List.takeWhile_cons_of_neg ha, List.filter_cons_of_neg ha]
        exact (List.filter_eq_nil_iff.mpr fun b hb hpb => ha (h.1 b hb hpb)).symm

theorem getLast?_eq_some_iff_max {α : Type*} [LinearOrder α] {l : List α} (h : l.Pairwise (· ≤ ·))
    {a : α} : l.getLast? = some a ↔ a ∈ l ∧ ∀ b ∈ l, b ≤ a := by
  have hmax : ∀ a, l.getLast? = some a → ∀ b ∈ l, b ≤ a := by
    intro a ha b hb
    obtain ⟨front, rfl⟩ := List.getLast?_eq_some_iff.mp ha
    rcases List.mem_append.mp hb with hb | hb
    · exact (List.pairwise_append.mp h).2.2 b hb a List.mem_cons_self
    · exact (List.mem_singleton.mp hb).le
  constructor
  · intro ha
    exact ⟨List.mem_of_getLast? ha, hmax a ha⟩
  · rintro ⟨hmem, hle⟩
    cases hlast : l.getLast? with
    | none =>
        rw [List.getLast?_eq_none_iff] at hlast
        rw [hlast] at hmem
        cases hmem
    | some b => rw [le_antisymm (hle b (List.mem_of_getLast? hlast)) (hmax b hlast a hmem)]

def SymbolEnv.Defines (env : SymbolEnv) (modulePath : Text) (s : ℕ × Text) : Prop :=
  (pathName modulePath).head? ≠ some '[' ∧ ∃ symbols, env.symbols modulePath = some symbols ∧
    ∃ e ∈ symbols, e.func = true ∧ e.value ≠ 0 ∧ e.name ≠ [] ∧ s = (e.value, e.name)

variable {env : SymbolEnv}

theorem mem_loadFunctionSymbols {modulePath : Text} {s : ℕ × Text} :
    s ∈ loadFunctionSymbols env modulePath ↔ env.Defines modulePath s := by
  unfold loadFunctionSymbols SymbolEnv.Defines
  by_cases hname : (pathName modulePath).head? = some '['
  · simp [hname]
  · rw [if_neg hname, List.mem_insertionSort, List.mem_filterMap]
    simp only [hname, ne_eq, not_false_eq_true, true_and]
    cases env.symbols modulePath with
    | none => simp
    | some symbols =>
        simp only [Option.getD_some, Option.some.injEq, exists_eq_left']
        apply exists_congr
        intro e
        apply and_congr_right
        intro _
        by_cases hskip : e.func = false ∨ e.value = 0 ∨ e.name = []
        · rw [if_pos hskip]
          constructor
          · exact fun h => nomatch h
          · rintro ⟨hf, hv, hn, -⟩
            rcases hskip with h | h | h
            · exact absurd (hf.symm.trans h) (by decide)
            · exact absurd h hv
            · exact absurd h hn
        · rw [if_neg hskip]
          push Not at hskip
          constructor
          · intro h
            exact ⟨by simpa using hskip.1, hskip.2.1, hskip.2.2, (Option.some.inj h).symm⟩
          · rintro ⟨-, -, -, rfl⟩
            rfl

theorem pairwise_loadFunctionSymbols (modulePath : Text) :
    (loadFunctionSymbols env modulePath).Pairwise fun a b => toLex a ≤ toLex b := by
  unfold loadFunctionSymbols
  split_ifs
  · exact List.Pairwise.nil
  · have htotal : Std.Total fun a b : ℕ × Text => toLex a ≤ toLex b := ⟨fun a b => le_total _ _⟩
    have htrans : IsTrans (ℕ × Text) fun a b => toLex a ≤ toLex b := ⟨fun a b c => le_trans⟩
    exact List.pairwise_insertionSort _ _

/-- The function at an offset is the last one that starts at or before it. -/
theorem nearestSymbolName_eq_some_iff {modulePath name : Text} {offset : ℤ} :
    nearestSymbolName (loadFunctionSymbols env modulePath) offset = some name ↔
      ∃ value : ℕ, env.Defines modulePath (value, name) ∧ (value : ℤ) ≤ offset ∧
        ∀ s, env.Defines modulePath s → (s.1 : ℤ) ≤ offset → toLex s ≤ toLex (value, name) := by
  have hsorted := @pairwise_loadFunctionSymbols env modulePath
  have hfilter : (loadFunctionSymbols env modulePath).takeWhile (fun s => (s.1 : ℤ) ≤ offset) =
      (loadFunctionSymbols env modulePath).filter fun s => (s.1 : ℤ) ≤ offset := by
    apply takeWhile_eq_filter
    apply hsorted.imp
    intro a b hab hb
    have hle : a.1 ≤ b.1 := Prod.Lex.monotone_fst (toLex a) (toLex b) hab
    exact decide_eq_true ((Nat.cast_le.mpr hle).trans (of_decide_eq_true hb))
  have hmap := @getLast?_eq_some_iff_max _ _
    (((loadFunctionSymbols env modulePath).filter fun s => (s.1 : ℤ) ≤ offset).map toLex)
    (List.pairwise_map.mpr (hsorted.filter _))
  unfold nearestSymbolName
  rw [hfilter, Option.map_eq_some_iff]
  constructor
  · rintro ⟨⟨value, n⟩, hlast, rfl⟩
    obtain ⟨hmem, hmax⟩ := (@hmap (toLex (value, n))).mp (by rw [List.getLast?_map, hlast]; rfl)
    obtain ⟨s, hs, he⟩ := List.mem_map.mp hmem
    obtain rfl : s = (value, n) := he
    rw [List.mem_filter, mem_loadFunctionSymbols] at hs
    refine ⟨value, hs.1, of_decide_eq_true hs.2, fun s hdef hle => ?_⟩
    exact hmax _ (List.mem_map_of_mem
      (List.mem_filter.mpr ⟨mem_loadFunctionSymbols.mpr hdef, decide_eq_true hle⟩))
  · rintro ⟨value, hdef, hle, hmax⟩
    have hlast := (@hmap (toLex (value, name))).mpr ⟨List.mem_map_of_mem (List.mem_filter.mpr
      ⟨mem_loadFunctionSymbols.mpr hdef, decide_eq_true hle⟩), ?_⟩
    · rw [List.getLast?_map, Option.map_eq_some_iff] at hlast
      obtain ⟨s, hs, he⟩ := hlast
      exact ⟨s, hs, congrArg (fun x => (ofLex x).2) he⟩
    · intro b hb
      obtain ⟨s, hs, rfl⟩ := List.mem_map.mp hb
      rw [List.mem_filter, mem_loadFunctionSymbols] at hs
      exact hmax s hs.1 (of_decide_eq_true hs.2)

/-! ## Frames of a stack -/

/-- What a frame shows: a line of the main binary, the bare address, or a place in another module. -/
inductive FrameSite
  | main (function : Text) (location : SourceLocation)
  | bare (ip : ℤ)
  | external (function label : Text) (offset : ℤ)

namespace FrameSite

def text : FrameSite → Text
  | main fn loc => strip fn ++ '@' :: strip loc.print
  | bare ip => hexText ip
  | external fn label offset => externalText fn label offset

def info (normalizePath : Text → Text) : FrameSite → FrameInfo
  | main fn loc => ⟨fn ++ '@' :: loc.print, fn, [], loc.file,
      displaySourcePath normalizePath loc.file, loc.line.getD 0⟩
  | bare ip => ⟨hexText ip, hexText ip, [], [], [], 0⟩
  | external fn label offset => ⟨externalText fn label offset, fn, label, [], [], 0⟩

/-- No part of the text looks like what the text puts between them. -/
def Plain : FrameSite → Prop
  | main fn loc => '@' ∉ fn ∧ fn ≠ [] ∧ strip fn = fn ∧ PlainFile loc.file ∧
      ¬ "] at 0x".toList <:+: fn ++ '@' :: loc.print
  | bare _ => True
  | external fn label offset => '[' ∉ fn ∧ '\n' ∉ fn ∧ fn ≠ [] ∧ strip fn = fn ∧ label ≠ [] ∧
      strip label = label ∧ 0 ≤ offset

def Named : FrameSite → Prop
  | main _ _ => True
  | bare _ => True
  | external _ label _ => ']' ∉ label

/-- A line printed as a number, or a module whose name is not in brackets. -/
def Legible : FrameSite → Prop
  | main _ loc => loc.line.isSome
  | bare _ => True
  | external _ label _ => ']' ∉ label

def function : FrameSite → Text
  | main fn _ => fn
  | bare ip => hexText ip
  | external fn _ _ => fn

/-- The function is read back as long as the module is not in brackets. -/
theorem parse_function (normalizePath : Text → Text) {site : FrameSite} (h : site.Plain)
    (hnamed : site.Named) :
    (parseFrameText normalizePath site.text).function = site.function := by
  cases site with
  | main fn loc =>
      obtain ⟨hat, hfn, hstrip, hfile, htag⟩ := h
      dsimp only [text, function]
      rw [hstrip, loc.strip_print hfile.first,
        parseFrameText_main_eq normalizePath hat hfn hstrip hfile htag, locationInfo_function]
  | bare ip => exact congrArg FrameInfo.function (parseFrameText_hexText normalizePath ip)
  | external fn label offset =>
      obtain ⟨hbracket, hline, hfn, hstrip, hlabel, hlstrip, hoff⟩ := h
      have hparse := (parseFrameText_external normalizePath hbracket hline hfn hstrip hlabel hlstrip
        hoff).mpr hnamed
      exact congrArg FrameInfo.function hparse

theorem parse_iff (normalizePath : Text → Text) {site : FrameSite} (h : site.Plain) :
    parseFrameText normalizePath site.text = site.info normalizePath ↔ site.Legible := by
  cases site with
  | main fn loc =>
      obtain ⟨hat, hfn, hstrip, hfile, htag⟩ := h
      dsimp only [text, info]
      rw [hstrip, loc.strip_print hfile.first]
      exact parseFrameText_main normalizePath hat hfn hstrip hfile htag
  | bare ip => exact iff_of_true (parseFrameText_hexText normalizePath ip) trivial
  | external fn label offset =>
      obtain ⟨hbracket, hline, hfn, hstrip, hlabel, hlstrip, hoff⟩ := h
      exact parseFrameText_external normalizePath hbracket hline hfn hstrip hlabel hlstrip hoff

end FrameSite

/-- The address looked up for a frame; a return address lies behind its call. -/
def adjustedIp (index : ℕ) (ip : ℤ) : ℤ := if index > 0 then ip - 4 else ip

/-- The address belongs to the main binary: a mapping says so, or no mapping has it and it lies in
the loaded size. -/
def inMain (env : SymbolEnv) (ip : ℤ) : Bool :=
  match findModule env.modules ip with
  | none => 0 ≤ ip - env.loadBias ∧ ip - env.loadBias < env.mainSize
  | some m => env.resolvePath m.path = env.binary

def externalSite (env : SymbolEnv) (ip : ℤ) : FrameSite :=
  match findModule env.modules ip with
  | none => .external "external frame".toList "module_unresolved".toList ip
  | some m => .external ((nearestSymbolName (loadFunctionSymbols env m.path) (m.offset ip)).getD
      "unknown procedure".toList) (displayModulePath m.path) (m.offset ip)

/-- What a run of `addr2line` for one offset does: it fails, prints nothing, prints a function
without a location, or prints both. An unknown function is printed as `??`. -/
inductive Reply
  | failed
  | silent
  | unlocated (function : Text)
  | located (function : Text) (location : SourceLocation)

def Reply.output : Reply → Option (List Text)
  | failed => none
  | silent => some []
  | unlocated fn => some [fn]
  | located fn loc => some [fn, loc.print]

def Reply.site (ip : ℤ) : Reply → Option FrameSite
  | failed => some (.bare ip)
  | silent => none
  | unlocated fn => some (.main fn ⟨"??".toList, none, none⟩)
  | located fn loc => some (.main fn loc)

def SymbolEnv.Replies (env : SymbolEnv) (reply : ℤ → Reply) : Prop :=
  ∀ offset, env.addr2line [offset] = (reply offset).output

def siteOf (env : SymbolEnv) (reply : ℤ → Reply) (ip : ℤ) : Option FrameSite :=
  if inMain env ip then (reply (ip - env.loadBias)).site ip else some (externalSite env ip)

def shownIp (env : SymbolEnv) (index : ℕ) (ip : ℤ) : ℤ :=
  if inMain env (adjustedIp index ip) then adjustedIp index ip else ip

/-- Only an address of the main binary about which nothing is printed has no frame. -/
theorem siteOf_eq_none_iff {env : SymbolEnv} {reply : ℤ → Reply} {ip : ℤ} :
    siteOf env reply ip = none ↔ inMain env ip = true ∧ reply (ip - env.loadBias) = .silent := by
  unfold siteOf
  by_cases hmain : inMain env ip = true
  · rw [if_pos hmain]
    cases reply (ip - env.loadBias) <;> simp [Reply.site, hmain]
  · simp [hmain]

section Chain

variable {reply : ℤ → Reply}

theorem symbolizeFrames_single (h : env.Replies reply) (ip : ℤ) :
    symbolizeFrames env [ip] =
      some (((reply (ip - env.loadBias)).site ip).map fun site => (ip, site.text)).toList := by
  have hoff : [ip].mapIdx (fun i ip =>
      if i > 0 then max 0 (ip - env.loadBias - 4) else ip - env.loadBias) =
        [ip - env.loadBias] := rfl
  have hunknown : strip (SourceLocation.print ⟨"??".toList, none, none⟩) = "??:?".toList := by
    decide
  unfold symbolizeFrames
  rw [if_neg (List.cons_ne_nil _ _)]
  dsimp only
  rw [hoff, h]
  cases reply (ip - env.loadBias) with
  | failed => rfl
  | silent => rfl
  | unlocated fn =>
      dsimp only [Reply.output, Reply.site, FrameSite.text, pairFrames, Option.map_some,
        Option.toList_some]
      rw [hunknown]
  | located fn loc => rfl

theorem symbolizeAddress_eq (h : env.Replies reply) (index : ℕ) (ip : ℤ) :
    symbolizeAddress env index ip = some ((siteOf env reply (adjustedIp index ip)).map
      fun site => (shownIp env index ip, site.text)).toList := by
  have hadj : (if index > 0 then ip - 4 else ip) = adjustedIp index ip := rfl
  have hmain : inMain env (adjustedIp index ip) = true →
      symbolizeFrames env [adjustedIp index ip] = some ((siteOf env reply
        (adjustedIp index ip)).map fun site => (shownIp env index ip, site.text)).toList := by
    intro hin
    unfold siteOf shownIp
    rw [if_pos hin, if_pos hin]
    exact symbolizeFrames_single h _
  have hout : inMain env (adjustedIp index ip) = false →
      some [(ip, (externalSite env (adjustedIp index ip)).text)] = some ((siteOf env reply
        (adjustedIp index ip)).map fun site => (shownIp env index ip, site.text)).toList := by
    intro hin
    unfold siteOf shownIp
    rw [hin]
    rfl
  unfold inMain at hmain hout
  unfold externalSite at hout
  unfold symbolizeAddress
  dsimp only
  rw [hadj]
  cases hfind : findModule env.modules (adjustedIp index ip) with
  | none =>
      rw [hfind] at hmain hout
      dsimp only at hmain hout ⊢
      simp only [decide_eq_true_eq, decide_eq_false_iff_not] at hmain hout
      split_ifs with hin
      · exact hmain hin
      · exact hout hin
  | some m =>
      rw [hfind] at hmain hout
      dsimp only at hmain hout ⊢
      simp only [decide_eq_true_eq, decide_eq_false_iff_not] at hmain hout
      split_ifs with hin
      · exact hmain hin
      · exact hout hin

def framesOf (env : SymbolEnv) (reply : ℤ → Reply) (chain : List ℤ) : List (ℤ × FrameSite) :=
  (chain.mapIdx fun i ip =>
    (siteOf env reply (adjustedIp i ip)).map (Prod.mk (shownIp env i ip))).reduceOption

theorem symbolizeChain_eq (h : env.Replies reply) (chain : List ℤ) :
    symbolizeChain env chain =
      some ((framesOf env reply chain).map fun frame => (frame.1, frame.2.text)) := by
  induction chain using List.reverseRecOn with
  | nil => rfl
  | append_singleton chain ip ih =>
      unfold symbolizeChain framesOf at ih ⊢
      rw [List.zipIdx_append, List.foldlM_append, ih, Option.bind_eq_bind, Option.bind_some,
        List.mapIdx_append, List.reduceOption_append, List.map_append]
      simp only [List.zipIdx_singleton, List.foldlM_cons, List.foldlM_nil, Nat.zero_add,
        symbolizeAddress_eq h, Option.map_some, Option.bind_eq_bind, Option.bind_some,
        List.mapIdx_cons, List.mapIdx_nil, Option.pure_def, List.reduceOption_singleton]
      cases siteOf env reply (adjustedIp chain.length ip) <;> rfl

/-- A frame is missing only where `addr2line` printed nothing. -/
theorem length_framesOf_eq_iff {env : SymbolEnv} {reply : ℤ → Reply} {chain : List ℤ} :
    (framesOf env reply chain).length = chain.length ↔
      ∀ i ip, chain[i]? = some ip → inMain env (adjustedIp i ip) = true →
        reply (adjustedIp i ip - env.loadBias) ≠ .silent := by
  have hlen : ∀ f : ℕ → ℤ → Option (ℤ × FrameSite),
      (chain.mapIdx f).reduceOption.length = chain.length ↔ ∀ x ∈ chain.mapIdx f, x.isSome := by
    intro f
    rw [← List.reduceOption_length_eq_iff, List.length_mapIdx]
  rw [framesOf, hlen]
  constructor
  · intro hall i ip hip hmain hsilent
    have hsome := hall _ (List.mem_of_getElem? (i := i) (by rw [List.getElem?_mapIdx, hip]; rfl))
    change ((siteOf env reply (adjustedIp i ip)).map _).isSome = true at hsome
    rw [siteOf_eq_none_iff.mpr ⟨hmain, hsilent⟩] at hsome
    cases hsome
  · intro hall x hx
    obtain ⟨i, hi⟩ := List.mem_iff_getElem?.mp hx
    rw [List.getElem?_mapIdx, Option.map_eq_some_iff] at hi
    obtain ⟨ip, hip, rfl⟩ := hi
    cases hsite : siteOf env reply (adjustedIp i ip) with
    | none =>
        obtain ⟨hmain, hsilent⟩ := siteOf_eq_none_iff.mp hsite
        exact absurd hsilent (hall i ip hip hmain)
    | some site => rfl

theorem findModule_eq_none_iff {modules : List ModuleEntry} {ip : ℤ} :
    findModule modules ip = none ↔ ∀ m ∈ modules, m.contains ip = false := by
  unfold findModule
  dsimp only
  rw [Option.or_eq_none_iff, List.head?_eq_none_iff, List.head?_eq_none_iff, List.filter_eq_nil_iff,
    List.filter_eq_nil_iff]
  constructor
  · rintro ⟨-, h⟩ m hm
    simpa using h m hm
  · intro h
    refine ⟨fun m hm => ?_, fun m hm => by simp [h m hm]⟩
    obtain ⟨hmem, hcontains⟩ := List.mem_filter.mp hm
    rw [h m hmem] at hcontains
    cases hcontains

/-- The chosen mapping has the address, and is one of a file if any such mapping has it. -/
theorem findModule_spec {modules : List ModuleEntry} {ip : ℤ} {m : ModuleEntry}
    (h : findModule modules ip = some m) :
    m ∈ modules ∧ m.contains ip = true ∧ ∀ m' ∈ modules, m'.contains ip = true → m'.path ≠ [] →
      m'.path.head? ≠ some '[' → m.path ≠ [] ∧ m.path.head? ≠ some '[' := by
  unfold findModule at h
  dsimp only at h
  rw [Option.or_eq_some_iff] at h
  rcases h with h | ⟨hnone, h⟩
  · obtain ⟨hmatch, hfile⟩ := List.mem_filter.mp (List.mem_of_mem_head? h)
    obtain ⟨hmem, hcontains⟩ := List.mem_filter.mp hmatch
    exact ⟨hmem, hcontains, fun _ _ _ _ _ => of_decide_eq_true hfile⟩
  · obtain ⟨hmem, hcontains⟩ := List.mem_filter.mp (List.mem_of_mem_head? h)
    refine ⟨hmem, hcontains, fun m' hm' hc hne hhead => ?_⟩
    rw [List.head?_eq_none_iff, List.filter_eq_nil_iff] at hnone
    exact absurd (decide_eq_true ⟨hne, hhead⟩) (hnone m' (List.mem_filter.mpr ⟨hm', hc⟩))

/-- An unwound stack has one frame for each address, but for those of the main binary about which
`addr2line` prints nothing. The text of a plain frame is read back as what was printed exactly when
its line is printed as a number or its module has no bracket in its name, and the functions are read
back in order. The name of a function in another module is that of the last one at or before the
offset. -/
theorem frames_parse_back (env : SymbolEnv) (normalizePath : Text → Text) (reply : ℤ → Reply)
    (h : env.Replies reply) (chain : List ℤ) :
    symbolizeChain env chain =
      some ((framesOf env reply chain).map fun frame => (frame.1, frame.2.text)) ∧
    ((framesOf env reply chain).length = chain.length ↔
      ∀ i ip, chain[i]? = some ip → inMain env (adjustedIp i ip) = true →
        reply (adjustedIp i ip - env.loadBias) ≠ .silent) ∧
    (∀ frame ∈ framesOf env reply chain, frame.2.Plain →
      (parseFrameText normalizePath frame.2.text = frame.2.info normalizePath ↔
        frame.2.Legible)) ∧
    ((∀ frame ∈ framesOf env reply chain, frame.2.Plain ∧ frame.2.Named) →
      frameFunctions normalizePath
          ((framesOf env reply chain).map fun frame => (frame.1, frame.2.text)) =
        ((framesOf env reply chain).map fun frame => frame.2.function).filter fun fn =>
          fn ≠ [] ∧ fn ≠ "??".toList) ∧
    ∀ modulePath offset name,
      nearestSymbolName (loadFunctionSymbols env modulePath) offset = some name ↔
        ∃ value : ℕ, env.Defines modulePath (value, name) ∧ (value : ℤ) ≤ offset ∧
          ∀ s, env.Defines modulePath s → (s.1 : ℤ) ≤ offset → toLex s ≤ toLex (value, name) := by
  refine ⟨symbolizeChain_eq h chain, length_framesOf_eq_iff, ?_, ?_, ?_⟩
  · intro frame _ hplain
    exact FrameSite.parse_iff normalizePath hplain
  · intro hall
    unfold frameFunctions
    rw [List.map_map]
    congr 1
    apply List.map_congr_left
    intro frame hframe
    exact FrameSite.parse_function normalizePath (hall frame hframe).1 (hall frame hframe).2
  · intro modulePath offset name
    exact nearestSymbolName_eq_some_iff

end Chain

def smallSymbolEnv : SymbolEnv where
  loadBias := 0x1000
  mainSize := 0x100
  binary := "/a.out".toList
  modules := [⟨0, "/lib/libm.so".toList, 0x7f00, 0x8000, 0⟩]
  resolvePath := id
  addr2line := fun offsets => some (offsets.flatMap fun offset =>
    if offset = 0x10 then ["main".toList, "a.c:3".toList] else ["??".toList, "??:0".toList])
  symbols := fun _ => some [⟨true, 16, "sin".toList⟩]

def smallReply (offset : ℤ) : Reply :=
  if offset = 0x10 then .located "main".toList ⟨"a.c".toList, some 3, none⟩
  else .located "??".toList ⟨"??".toList, some 0, none⟩

theorem frames_parse_back_small :
    ((symbolizeChain smallSymbolEnv [0x1010, 0x1020, 0x7f20]).map List.length = some 3) ∧
    (symbolizeChain smallSymbolEnv [0x1010, 0x1020, 0x7f20]).map (frameFunctions id) =
      some ["main".toList, "sin".toList] ∧
    parseFrameText id "??@??:0".toList =
      ⟨"??@??:0".toList, "??".toList, [], "??".toList, "??".toList, 0⟩ := by
  have hreplies : smallSymbolEnv.Replies smallReply := by
    intro offset
    have hknown : SourceLocation.print ⟨"a.c".toList, some 3, none⟩ = "a.c:3".toList := by decide
    have hunknown : SourceLocation.print ⟨"??".toList, some 0, none⟩ = "??:0".toList := by decide
    unfold smallReply
    dsimp only [smallSymbolEnv]
    rw [List.flatMap_singleton]
    split_ifs
    · rw [Reply.output, hknown]
    · rw [Reply.output, hunknown]
  have hframes : framesOf smallSymbolEnv smallReply [0x1010, 0x1020, 0x7f20] =
      [(0x1010, .main "main".toList ⟨"a.c".toList, some 3, none⟩),
        (0x101c, .main "??".toList ⟨"??".toList, some 0, none⟩),
        (0x7f20, .external "sin".toList "libm.so".toList 0x1c)] := rfl
  have hfile : ∀ c file, isspace c = false → '\n' ∉ c :: file →
      ¬ " (discriminator".toList <:+: c :: file → PlainFile (c :: file) := by
    intro c file hc hline hmark
    refine ⟨hline, fun d hd => ?_, hmark⟩
    rwa [← Option.some.inj hd]
  obtain ⟨hchain, -, hback, hfunctions, -⟩ := frames_parse_back smallSymbolEnv id smallReply
    hreplies [0x1010, 0x1020, 0x7f20]
  rw [hframes] at hchain hback hfunctions
  have hplain : ∀ frame ∈ ([(0x1010, .main "main".toList ⟨"a.c".toList, some 3, none⟩),
      (0x101c, .main "??".toList ⟨"??".toList, some 0, none⟩),
      (0x7f20, .external "sin".toList "libm.so".toList 0x1c)] : List (ℤ × FrameSite)),
      frame.2.Plain ∧ frame.2.Named := by
    rw [List.forall_mem_cons, List.forall_mem_cons, List.forall_mem_cons]
    refine ⟨⟨⟨by decide, by decide, by decide, hfile 'a' _ (by decide) (by decide) (by decide),
      by decide⟩, trivial⟩, ⟨⟨by decide, by decide, by decide,
        hfile '?' _ (by decide) (by decide) (by decide), by decide⟩, trivial⟩,
        ⟨⟨by decide, by decide, by decide, by decide, by decide, by decide, by decide⟩, ?_⟩,
        fun _ h => nomatch h⟩
    exact show ']' ∉ "libm.so".toList by decide
  rw [hchain, Option.map_some, Option.map_some, hfunctions hplain]
  refine ⟨rfl, rfl, ?_⟩
  exact (hback _ (List.mem_cons_of_mem _ List.mem_cons_self) (hplain _
    (List.mem_cons_of_mem _ List.mem_cons_self)).1).mpr rfl

end Resolver

end RdSpeTool
