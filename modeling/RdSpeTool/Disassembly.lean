import RdSpeTool.ModuleMaps

/-!
# Disassembly of a hotspot

The second stage hands the file offset of a hotspot to `objdump` as a start address, and takes the
address template from the line it prints there. `objdump` counts in link addresses of the ELF file.
File offsets and link addresses of the text segment differ by a constant of the link layout.
-/

namespace RdSpeTool

open CText

/-! ## Reading the disassembly -/

structure Instruction where
  mnemonic : Text
  operands : Text
  deriving DecidableEq

structure HotTarget where
  pcOffset : U64
  absPc : U64
  aggregatedSamples : U64
  path : Text
  mnemonic : Text
  operands : Text
  decode : DecodeTemplate
  deriving DecidableEq

def quoteChar : Char := Char.ofNat 39

def shellQuote (s : Text) : Text :=
  [quoteChar] ++ s.flatMap (fun c =>
    if c = quoteChar then [quoteChar, '\\', quoteChar, quoteChar] else [c]) ++ [quoteChar]

def disassemblers : List Text := ["objdump".toList, "llvm-objdump".toList]

def objdumpCommand (binaryPath : Text) (pcOffset : U64) (tool : Text) : Text :=
  tool ++ " -d --start-address=0x".toList ++ hexU64 pcOffset ++ " --stop-address=0x".toList ++
    hexU64 (pcOffset + 4) ++ [' '] ++ shellQuote binaryPath ++ " 2>/dev/null".toList

/-- The first output that is not empty. `run` stands for `run_command_capture`, which gives no text
for a command that fails. -/
def captureDisassembly (run : Text → Text) (binaryPath : Text) (pcOffset : U64) : Text :=
  ((disassemblers.map fun tool => run (objdumpCommand binaryPath pcOffset tool)).find?
    (· ≠ [])).getD []

/-- The instruction of a line, if it is the one at `pcOffset`. -/
def readDisassemblyLine (pcOffset : U64) (line : Text) : Option Instruction :=
  let t := trimAsciiSpace line
  match find t ':' 0 with
  | none => none
  | some colon =>
      if (strtoull 16 (cstr (t.take colon))).1 ≠ pcOffset then none
      else do
        let (_, rest) ← word (trimAsciiSpace (t.drop (colon + 1)))
        let (mnemonic, operands) ← word rest
        some ⟨mnemonic, trimAsciiSpace operands⟩

def readDisassembly (pcOffset : U64) (output : Text) : Option Instruction :=
  (getlines '\n' [] output).findSome? (readDisassemblyLine pcOffset)

def decodeInstruction (binaryPath : Text) (pcOffset aggregatedSamples : U64) :
    Option Instruction → Except String HotTarget
  | none => throw ("cannot find disassembly for hotspot PC offset 0x" ++
      String.ofList (hexU64 pcOffset))
  | some i =>
      if i.mnemonic ∉ ["ldr".toList, "str".toList, "ldur".toList, "stur".toList] then
        throw (quoting "unsupported hotspot instruction" i.mnemonic ++ " at 0x" ++
          String.ofList (hexU64 pcOffset))
      else do
        let decode ← decodeFromAsmOperands i.mnemonic i.operands
        pure
          { pcOffset := pcOffset
            absPc := 0
            aggregatedSamples := aggregatedSamples
            path := binaryPath
            mnemonic := i.mnemonic
            operands := i.operands
            decode := decode }

def decodeTargetViaObjdump (run : Text → Text) (binaryPath : Text)
    (pcOffset aggregatedSamples : U64) : Except String HotTarget :=
  let output := captureDisassembly run binaryPath pcOffset
  if output = [] then
    throw ("cannot disassemble hotspot PC offset 0x" ++ String.ofList (hexU64 pcOffset))
  else
    decodeInstruction binaryPath pcOffset aggregatedSamples (readDisassembly pcOffset output)

/-! ## The text segment -/

structure TextSegment where
  pOffset : ℕ
  pVaddr : ℕ
  pFilesz : ℕ
  pageSize : ℕ
  page_pos : 0 < pageSize
  congruent : pOffset % pageSize = pVaddr % pageSize

namespace TextSegment

variable (t : TextSegment)

def pageDown (n : ℕ) : ℕ := n - n % t.pageSize

def pageUp (n : ℕ) : ℕ := t.pageDown (n + (t.pageSize - 1))

/-- The mapping the loader makes, whole pages moved by a load bias (zero for a fixed executable). -/
def entry (moduleId : U32) (bias : U64) (path : Text) : ModuleMapEntry where
  moduleId := moduleId
  vmStart := BitVec.ofNat 64 (t.pageDown t.pVaddr) + bias
  vmEnd := BitVec.ofNat 64 (t.pageUp (t.pVaddr + t.pFilesz)) + bias
  fileOffset := BitVec.ofNat 64 (t.pageDown t.pOffset)
  path := path

def Loads (bias : U64) : Prop :=
  t.pageUp (t.pVaddr + t.pFilesz) + bias.toNat < 2 ^ 64 ∧ t.pOffset + t.pFilesz < 2 ^ 64

def address (bias : U64) (i : ℕ) : U64 := BitVec.ofNat 64 (t.pVaddr + i) + bias

/-- The instruction at a link address; `insn` has the instructions of the file by offset. -/
def linkedInstruction (insn : ℕ → Option Instruction) (v : ℕ) : Option Instruction :=
  if t.pVaddr ≤ v ∧ v < t.pVaddr + t.pFilesz then insn (t.pOffset + (v - t.pVaddr)) else none

end TextSegment

/-- The instruction that a mapping shows at an address. -/
def ModuleMapEntry.instructionAt (e : ModuleMapEntry) (insn : ℕ → Option Instruction) (a : U64) :
    Option Instruction :=
  insn (a - e.vmStart + e.fileOffset).toNat

/-- The disassemblers that are installed, at least one, show the instruction at link address `v`. -/
structure ObjdumpShows (run : Text → Text) (binaryPath : Text) (t : TextSegment)
    (insn : ℕ → Option Instruction) (v : U64) : Prop where
  installed : ∃ tool ∈ disassemblers, run (objdumpCommand binaryPath v tool) ≠ []
  shows : ∀ tool ∈ disassemblers, run (objdumpCommand binaryPath v tool) ≠ [] →
    readDisassembly v (run (objdumpCommand binaryPath v tool)) = t.linkedInstruction insn v.toNat

/-! ## Places in the file -/

namespace TextSegment

variable (t : TextSegment)

theorem pageDown_add_mod (n : ℕ) : t.pageDown n + n % t.pageSize = n :=
  Nat.sub_add_cancel (Nat.mod_le n t.pageSize)

theorem le_pageUp (n : ℕ) : n ≤ t.pageUp n := by
  have hmod := Nat.mod_lt (n + (t.pageSize - 1)) t.page_pos
  have hdown := t.pageDown_add_mod (n + (t.pageSize - 1))
  unfold pageUp
  omega

/-- Page-congruence lets one mapping serve offsets and addresses: byte `i` of the segment is shown
where it belongs. -/
theorem address_offset (moduleId : U32) (bias : U64) (path : Text) (i : ℕ) :
    t.address bias i - (t.entry moduleId bias path).vmStart +
      (t.entry moduleId bias path).fileOffset = BitVec.ofNat 64 (t.pOffset + i) := by
  have hv := t.pageDown_add_mod t.pVaddr
  have ho := t.pageDown_add_mod t.pOffset
  rw [← t.congruent] at hv
  simp only [address, entry]
  generalize t.pageDown t.pVaddr = dv at hv ⊢
  generalize t.pageDown t.pOffset = d at ho ⊢
  generalize t.pOffset % t.pageSize = r at hv ho
  rw [← hv, ← ho]
  simp only [BitVec.ofNat_add]
  grind

theorem address_mem_vmRange {bias : U64} (hload : t.Loads bias) {i : ℕ} (hi : i < t.pFilesz)
    (moduleId : U32) (path : Text) :
    (t.address bias i).toNat ∈ (t.entry moduleId bias path).vmRange := by
  have hup := t.le_pageUp (t.pVaddr + t.pFilesz)
  have hdown := t.pageDown_add_mod t.pVaddr
  have hfit := hload.1
  have hbias := bias.isLt
  have htoNat : ∀ n, n ≤ t.pageUp (t.pVaddr + t.pFilesz) →
      (BitVec.ofNat 64 n + bias).toNat = n + bias.toNat := by
    intro n hn
    rw [BitVec.toNat_add, BitVec.toNat_ofNat, Nat.mod_eq_of_lt (a := n) (by omega),
      Nat.mod_eq_of_lt (by omega)]
  refine ⟨?_, ?_⟩
  · rw [address, htoNat _ (by omega)]
    simp only [entry]
    rw [htoNat _ (by omega)]
    omega
  · rw [address, htoNat _ (by omega)]
    simp only [entry]
    rw [htoNat _ le_rfl]
    omega

end TextSegment

/-! ## What the decoder sees -/

theorem ObjdumpShows.decode {run : Text → Text} {binaryPath : Text} {t : TextSegment}
    {insn : ℕ → Option Instruction} {v : U64} (h : ObjdumpShows run binaryPath t insn v)
    (samples : U64) : decodeTargetViaObjdump run binaryPath v samples =
      decodeInstruction binaryPath v samples (t.linkedInstruction insn v.toNat) := by
  obtain ⟨tool, htool, hne⟩ := h.installed
  have hsome : ((disassemblers.map fun tool => run (objdumpCommand binaryPath v tool)).find?
      (· ≠ [])).isSome := by
    rw [List.find?_isSome]
    exact ⟨_, List.mem_map_of_mem htool, by simpa using hne⟩
  obtain ⟨output, hfind⟩ := Option.isSome_iff_exists.mp hsome
  obtain ⟨tool', htool', rfl⟩ := List.mem_map.mp (List.mem_of_find?_eq_some hfind)
  have hout : run (objdumpCommand binaryPath v tool') ≠ [] := by
    simpa using List.find?_some hfind
  have hcapture : captureDisassembly run binaryPath v =
      run (objdumpCommand binaryPath v tool') := by
    rw [captureDisassembly, hfind, Option.getD_some]
  unfold decodeTargetViaObjdump
  rw [hcapture, if_neg hout, h.shows tool' htool' hout]

/-- A disassembler that prints one line whatever it is asked. -/
theorem ObjdumpShows.const {output : Text} (hne : output ≠ []) {binaryPath : Text}
    {t : TextSegment} {insn : ℕ → Option Instruction} {v : U64}
    (h : readDisassembly v output = t.linkedInstruction insn v.toNat) :
    ObjdumpShows (fun _ => output) binaryPath t insn v where
  installed := ⟨"objdump".toList, by simp [disassemblers], hne⟩
  shows _ _ _ := h

def storeLine (v : U64) : Text := hexU64 v ++ ':' :: "\tf9000020 \tstr\tx0, [x1]".toList

theorem hexU64_digits (v : U64) {c : Char} (hc : c ∈ hexU64 v) : digitValue c < 16 :=
  digitValue_lt_of_mem (by decide) (by decide) hc

theorem strtoull_hexU64 (v : U64) : strtoull 16 (cstr (hexU64 v)) = (v, []) := by
  have hread : strtoull 16 (hexU64 v ++ []) = (v, []) :=
    strtoull_hex Nat.toDigits_ne_nil (fun c hc => hexU64_digits v hc) (by simp)
      (digitsValue_toDigits (by decide) (by decide) _)
  rw [cstr_of_digits fun c hc => .inl ((hexU64_digits v hc).trans (by decide))]
  rwa [List.append_nil] at hread

theorem readDisassembly_storeLine (v : U64) :
    readDisassembly v (storeLine v) = some ⟨"str".toList, "x0, [x1]".toList⟩ := by
  have hno : ∀ c, 16 ≤ digitValue c → c ∉ hexU64 v := fun c hc hmem =>
    absurd (hexU64_digits v hmem) (not_lt.mpr hc)
  have hlines : getlines '\n' [] (storeLine v) = [storeLine v] := by
    rw [getlines_last ?_ (by simp [storeLine]), List.nil_append]
    rw [storeLine, List.mem_append, not_or]
    exact ⟨hno _ (by decide), by decide +kernel⟩
  have htrim : trimAsciiSpace (storeLine v) = storeLine v := by
    refine trimAsciiSpace_padded (t := storeLine v) (fun c hc => ?_) ?_ 0
    · obtain ⟨d, s, hd, hlt⟩ := toDigits_head (by decide : 1 < 16) le_rfl v.toNat
      rw [storeLine, hexU64, hd] at hc
      obtain rfl := Option.some.inj hc
      exact isspace_eq_false (hlt.trans (by decide))
    · have hlast : (storeLine v).getLast? = some ']' := by
        rw [storeLine, List.getLast?_append]
        rfl
      intro c hc
      rw [hlast] at hc
      obtain rfl := Option.some.inj hc
      rfl
  have hfind : find (storeLine v) ':' 0 = some (hexU64 v).length := by
    have h := find_append (hno ':' (by decide)) [] "\tf9000020 \tstr\tx0, [x1]".toList
    simpa [storeLine] using h
  have htake : (storeLine v).take (hexU64 v).length = hexU64 v := List.take_left
  have hdrop : (storeLine v).drop ((hexU64 v).length + 1) =
      "\tf9000020 \tstr\tx0, [x1]".toList := by
    rw [storeLine, ← List.drop_drop, List.drop_left]
    rfl
  have hline : readDisassemblyLine v (storeLine v) =
      some ⟨"str".toList, "x0, [x1]".toList⟩ := by
    unfold readDisassemblyLine
    simp only [htrim, hfind, htake, strtoull_hexU64, hdrop, ne_eq, not_true_eq_false, if_false]
    decide +kernel
  rw [readDisassembly, hlines, List.findSome?_cons, hline]

/-! ## Offsets taken for link addresses -/

/-- A load or store with a plain base register makes a target. -/
theorem decodeInstruction_plain (binaryPath : Text) (v samples : U64) (mnemonic : Text)
    (h : mnemonic ∈ ["ldr".toList, "str".toList, "ldur".toList, "stur".toList]) :
    ∃ target : HotTarget, target.mnemonic = mnemonic ∧
      decodeInstruction binaryPath v samples (some ⟨mnemonic, "x0, [x1]".toList⟩) = .ok target := by
  have hdecode : ∃ dec, decodeFromAsmOperands mnemonic "x0, [x1]".toList = .ok dec := ⟨_, rfl⟩
  obtain ⟨dec, hdec⟩ := hdecode
  refine ⟨⟨v, 0, samples, binaryPath, mnemonic, "x0, [x1]".toList, dec⟩, rfl, ?_⟩
  refine (if_neg (not_not.mpr h)).trans ?_
  dsimp only
  rw [hdec]
  rfl

/-- If link addresses are not file offsets, there is a file in which the decoder sees another
instruction than the one at offset `v`, or none. -/
theorem exists_foreign_instruction (t : TextSegment) (h : t.pVaddr ≠ t.pOffset)
    (binaryPath : Text) (v samples : U64) :
    ∃ insn run, ObjdumpShows run binaryPath t insn v ∧
      decodeTargetViaObjdump run binaryPath v samples ≠
        decodeInstruction binaryPath v samples (insn v.toNat) := by
  let insn : ℕ → Option Instruction := fun n =>
    some ⟨if n = v.toNat then "ldr".toList else "str".toList, "x0, [x1]".toList⟩
  obtain ⟨load, hload, hok⟩ :=
    decodeInstruction_plain binaryPath v samples "ldr".toList (by simp)
  have hhere : insn v.toNat = some ⟨"ldr".toList, "x0, [x1]".toList⟩ := by
    simp only [insn, if_true]
  by_cases hin : t.pVaddr ≤ v.toNat ∧ v.toNat < t.pVaddr + t.pFilesz
  · have hother : t.pOffset + (v.toNat - t.pVaddr) ≠ v.toNat := by omega
    have hlinked : t.linkedInstruction insn v.toNat =
        some ⟨"str".toList, "x0, [x1]".toList⟩ := by
      simp only [TextSegment.linkedInstruction, if_pos hin, insn, if_neg hother]
    have hshows : ObjdumpShows (fun _ => storeLine v) binaryPath t insn v :=
      .const (by simp [storeLine]) (by rw [readDisassembly_storeLine, hlinked])
    obtain ⟨store, hstore, hok'⟩ :=
      decodeInstruction_plain binaryPath v samples "str".toList (by simp)
    refine ⟨insn, _, hshows, ?_⟩
    rw [hshows.decode, hlinked, hhere, hok, hok']
    rintro heq
    rw [Except.ok.inj heq, hload] at hstore
    exact absurd hstore (by decide +kernel)
  · have hlinked : t.linkedInstruction insn v.toNat = none := by
      simp only [TextSegment.linkedInstruction, if_neg hin]
    have hshows : ObjdumpShows (fun _ => ['?']) binaryPath t insn v :=
      .const (by simp) (by rw [hlinked]; rfl)
    refine ⟨insn, _, hshows, ?_⟩
    rw [hshows.decode, hlinked, hhere, hok]
    rintro ⟨⟩

/-- The template of a hotspot comes from the instruction at its address exactly for the layouts
whose link addresses are file offsets. -/
theorem disassembly_matches_iff (t : TextSegment) (mainBinary : Text) (moduleId : U32)
    (bias slide samples : U64) (table : List ModuleMapEntry) (realpath : Text → Option Text)
    (lines : List Text) (hmain : mainBinary ≠ []) (hmaps : DisjointMaps mainBinary table)
    (he : t.entry moduleId bias mainBinary ∈ table) (hload : t.Loads bias)
    (hsame : SameMappings realpath mainBinary table slide lines) (i : ℕ) (hi : i < t.pFilesz) :
    ∃ key absPc, hotspotKey mainBinary table (t.address bias i) = some key ∧
      resolveAbsolutePc realpath mainBinary key.pcOffset lines = .ok absPc ∧
      ((∀ insn run, ObjdumpShows run mainBinary t insn key.pcOffset →
          decodeTargetViaObjdump run mainBinary key.pcOffset samples =
            decodeInstruction mainBinary key.pcOffset samples
              ((t.entry moduleId (bias + slide) mainBinary).instructionAt insn absPc)) ↔
        t.pVaddr = t.pOffset) := by
  have hm : isMainBinaryModule mainBinary (t.entry moduleId bias mainBinary) = true := by
    simp [isMainBinaryModule, TextSegment.entry, hmain]
  have hpc := t.address_mem_vmRange hload hi moduleId mainBinary
  have hkey := hotspotKey_eq hmaps he hm hpc
  have habs := resolveAbsolutePc_eq hmaps he hm hpc hsame
  have hoff := t.address_offset moduleId bias mainBinary i
  refine ⟨_, _, hkey, habs, ?_⟩
  dsimp only
  rw [hoff]
  -- the same byte of the segment, at its address in the second run
  have hmoved : t.address bias i + slide = t.address (bias + slide) i := by
    rw [TextSegment.address, TextSegment.address, BitVec.add_assoc]
  have hplace : (BitVec.ofNat 64 (t.pOffset + i)).toNat = t.pOffset + i := by
    rw [BitVec.toNat_ofNat, Nat.mod_eq_of_lt]
    have hfile := hload.2
    omega
  have hlocated : ∀ insn, (t.entry moduleId (bias + slide) mainBinary).instructionAt insn
      (t.address bias i + slide) = insn (BitVec.ofNat 64 (t.pOffset + i)).toNat := by
    intro insn
    rw [hmoved, ModuleMapEntry.instructionAt, t.address_offset]
  simp only [hlocated]
  constructor
  · intro hall
    by_contra hne
    obtain ⟨insn, run, hshows, hdiff⟩ :=
      exists_foreign_instruction t hne mainBinary (BitVec.ofNat 64 (t.pOffset + i)) samples
    exact hdiff (hall insn run hshows)
  · intro heq insn run hshows
    rw [hshows.decode, hplace, TextSegment.linkedInstruction, if_pos (by omega)]
    congr 2
    omega

/-- A position independent program whose link addresses are its file offsets. -/
theorem disassembly_matches_small :
    let app := "/opt/app".toList
    let t : TextSegment := ⟨0x1000, 0x1000, 0x1000, 0x1000, by decide, by decide⟩
    ∃ key absPc, hotspotKey app [t.entry 0 0x400000 app] 0x401234 = some key ∧
      resolveAbsolutePc some app key.pcOffset
        ["5f001000-5f002000 r-xp 00001000 08:02 17 /opt/app".toList] = .ok absPc ∧
      ∀ insn run, ObjdumpShows run app t insn key.pcOffset →
        decodeTargetViaObjdump run app key.pcOffset 1 = decodeInstruction app key.pcOffset 1
          ((t.entry 0 0x5f000000 app).instructionAt insn absPc) := by
  intro app t
  have hlines : ["5f001000-5f002000 r-xp 00001000 08:02 17 /opt/app".toList].filterMap
      (mainMapping some app) = [⟨0x5f001000, 0x5f002000, 0x1000, app⟩] := by
    decide +kernel
  have hmain : isMainBinaryModule app (t.entry 0 0x400000 app) = true := by decide +kernel
  have hdisj : DisjointMaps app [t.entry 0 0x400000 app] := by
    refine ⟨List.pairwise_singleton _ _, ?_, fun e he _ => ?_⟩
    · rw [List.filter_cons_of_pos hmain]
      exact List.pairwise_singleton _ _
    · rw [List.mem_singleton.mp he]
      exact ⟨by decide, by decide⟩
  have hsame : SameMappings some app [t.entry 0 0x400000 app] 0x5ec00000
      ["5f001000-5f002000 r-xp 00001000 08:02 17 /opt/app".toList] := by
    intro m
    have hmoved : (⟨(t.entry 0 0x400000 app).vmStart + 0x5ec00000,
        (t.entry 0 0x400000 app).vmEnd + 0x5ec00000, (t.entry 0 0x400000 app).fileOffset,
        app⟩ : MapsLine) = ⟨0x5f001000, 0x5f002000, 0x1000, app⟩ := by
      decide +kernel
    simp only [hlines, List.mem_singleton, exists_eq_left, hmain, true_and, hmoved]
  obtain ⟨key, absPc, hkey, habs, hiff⟩ := disassembly_matches_iff t app 0 0x400000 0x5ec00000 1
    [t.entry 0 0x400000 app] some _ (by decide +kernel) hdisj (List.mem_singleton_self _)
    ⟨by decide +kernel, by decide +kernel⟩ hsame 0x234 (by decide)
  have haddress : t.address 0x400000 0x234 = 0x401234 := by decide +kernel
  have hbias : (0x400000 + 0x5ec00000 : U64) = 0x5f000000 := by decide +kernel
  rw [haddress] at hkey
  rw [hbias] at hiff
  exact ⟨key, absPc, hkey, habs, hiff.mpr rfl⟩

/-- A layout with link addresses 64 KiB above the file offsets: the decoder takes the store at file
offset 0x1000 for the load at 0x11000. -/
theorem foreign_instruction_decoded :
    let app := "/opt/app".toList
    let t : TextSegment := ⟨0x1000, 0x11000, 0x20000, 0x1000, by decide, by decide⟩
    let insn : ℕ → Option Instruction := fun n =>
      some ⟨if n = 0x1000 then "str".toList else "ldr".toList, "x0, [x1]".toList⟩
    let run : Text → Text := fun _ => "   11000:\tf9000020 \tstr\tx0, [x1]\n".toList
    hotspotKey app [t.entry 0 0 app] (t.address 0 0x10000) = some ⟨0, 0x11000⟩ ∧
      resolveAbsolutePc some app 0x11000
        ["00011000-00031000 r-xp 00001000 08:02 17 /opt/app".toList] = .ok 0x21000 ∧
      ObjdumpShows run app t insn 0x11000 ∧
      decodeTargetViaObjdump run app 0x11000 1 ≠
        decodeInstruction app 0x11000 1 ((t.entry 0 0 app).instructionAt insn 0x21000) := by
  intro app t insn run
  have hread : readDisassembly 0x11000 "   11000:\tf9000020 \tstr\tx0, [x1]\n".toList =
      t.linkedInstruction insn (0x11000 : U64).toNat := by
    decide +kernel
  have hlinked : t.linkedInstruction insn (0x11000 : U64).toNat =
      some ⟨"str".toList, "x0, [x1]".toList⟩ := by
    decide +kernel
  have hlocated : (t.entry 0 0 app).instructionAt insn 0x21000 =
      some ⟨"ldr".toList, "x0, [x1]".toList⟩ := by
    decide +kernel
  have hshows : ObjdumpShows run app t insn 0x11000 := .const (by decide +kernel) hread
  refine ⟨by decide +kernel, by decide +kernel, hshows, ?_⟩
  obtain ⟨load, hload, hok⟩ := decodeInstruction_plain app 0x11000 1 "ldr".toList (by simp)
  obtain ⟨store, hstore, hok'⟩ := decodeInstruction_plain app 0x11000 1 "str".toList (by simp)
  rw [hshows.decode, hlinked, hlocated, hok, hok']
  intro heq
  rw [Except.ok.inj heq, hload] at hstore
  exact absurd hstore (by decide +kernel)

end RdSpeTool
