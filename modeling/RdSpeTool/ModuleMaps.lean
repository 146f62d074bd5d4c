import RdSpeTool.OperandDecoder

/-!
# PCs of the main binary across runs

The first stage remembers the executable mappings of its process and names a sampled PC by its
offset in the file. The second stage finds the mapping that covers this offset in its own
`/proc/self/maps` and turns the offset back into an address.
-/

namespace RdSpeTool

open CText

/-! ## Mappings -/

structure MapsLine where
  vmStart : U64
  vmEnd : U64
  fileOffset : U64
  path : Text
  deriving DecidableEq

/-- The fields both stages read from a line; lines without execute permission are skipped. -/
def parseMapsLine (line : Text) : Option MapsLine := do
  let (range, rest) ← word line
  let (perms, rest) ← word rest
  let (offsetHex, rest) ← word rest
  let (_, rest) ← word rest
  let (_, rest) ← word rest
  if perms.length < 3 ∨ perms[2]? ≠ some 'x' then none
  else
    let start := strtoull 16 (cstr range)
    if start.2.head? ≠ some '-' then none
    else
      some
        { vmStart := start.1
          vmEnd := (strtoull 16 (start.2.drop 1)).1
          fileOffset := (strtoull 16 (cstr offsetHex)).1
          path := rest }

/-- `realpath` resolves links, and fails for a file that does not exist. -/
def normalizeFilesystemPath (realpath : Text → Option Text) (path : Text) : Text :=
  if path.head? ≠ some '/' then path else (realpath (cstr path)).getD path

/-! ## The first stage -/

structure ModuleMapEntry where
  moduleId : U32
  vmStart : U64
  vmEnd : U64
  fileOffset : U64
  path : Text
  deriving DecidableEq

/-- The monitor's `trim_ascii_space` only looks at the front. -/
def trimLeadingSpace (s : Text) : Text := s.dropWhile isspace

def rememberModuleMap (realpath : Text → Option Text) (table : List ModuleMapEntry)
    (m : MapsLine) : List ModuleMapEntry :=
  let effectivePath :=
    if m.path = [] then "[anonymous_exec]".toList else normalizeFilesystemPath realpath m.path
  if table.any fun e => e.vmStart = m.vmStart ∧ e.vmEnd = m.vmEnd ∧
      e.fileOffset = m.fileOffset ∧ e.path = effectivePath then table
  else
    table ++ [
      { moduleId := BitVec.ofNat 32 table.length
        vmStart := m.vmStart
        vmEnd := m.vmEnd
        fileOffset := m.fileOffset
        path := effectivePath }]

def snapshotModuleMaps (realpath : Text → Option Text) (lines : List Text)
    (table : List ModuleMapEntry) : List ModuleMapEntry :=
  lines.foldl (fun table line =>
    match parseMapsLine line with
    | none => table
    | some m => rememberModuleMap realpath table { m with path := trimLeadingSpace m.path }) table

def findModuleMap (table : List ModuleMapEntry) (pc : U64) : Option ModuleMapEntry :=
  table.find? fun e => e.vmStart ≤ pc ∧ pc < e.vmEnd

def isMainBinaryModule (mainBinary : Text) (e : ModuleMapEntry) : Bool :=
  mainBinary ≠ [] ∧ e.path = mainBinary

structure HotspotKey where
  moduleId : U32
  pcOffset : U64
  deriving DecidableEq

def hotspotKey (mainBinary : Text) (table : List ModuleMapEntry) (pc : U64) : Option HotspotKey :=
  match findModuleMap table pc with
  | none => none
  | some e =>
      if isMainBinaryModule mainBinary e then some ⟨e.moduleId, pc - e.vmStart + e.fileOffset⟩
      else none

/-! ## The second stage -/

def mainMapping (realpath : Text → Option Text) (binaryPath : Text) (line : Text) :
    Option MapsLine :=
  match parseMapsLine line with
  | none => none
  | some m =>
      if normalizeFilesystemPath realpath (trimAsciiSpace m.path) ≠ binaryPath then none
      else some { m with path := binaryPath }

def hexU64 (value : U64) : Text := Nat.toDigits 16 value.toNat

def resolveAbsolutePc (realpath : Text → Option Text) (binaryPath : Text) (pcOffset : U64)
    (lines : List Text) : Except String U64 :=
  let found := lines.findSome? fun line =>
    match mainMapping realpath binaryPath line with
    | none => none
    | some m =>
        let span := m.vmEnd - m.vmStart
        if pcOffset < m.fileOffset ∨ pcOffset ≥ m.fileOffset + span then none
        else some (m.vmStart + (pcOffset - m.fileOffset))
  match found with
  | some pc => pure pc
  | none => throw ("cannot resolve current absolute PC for hotspot offset 0x" ++
      String.ofList (hexU64 pcOffset))

/-! ## Disjoint ranges -/

namespace ModuleMapEntry

def vmRange (e : ModuleMapEntry) : Set ℕ := Set.Ico e.vmStart.toNat e.vmEnd.toNat

/-- The bytes of the file that the mapping shows. -/
def fileRange (e : ModuleMapEntry) : Set ℕ :=
  Set.Ico e.fileOffset.toNat (e.fileOffset.toNat + (e.vmEnd.toNat - e.vmStart.toNat))

def NoWrap (e : ModuleMapEntry) : Prop :=
  e.vmStart.toNat ≤ e.vmEnd.toNat ∧
    e.fileOffset.toNat + (e.vmEnd.toNat - e.vmStart.toNat) < 2 ^ 64

end ModuleMapEntry

/-- A module table with disjoint addresses, and disjoint file ranges for the main binary. -/
structure DisjointMaps (mainBinary : Text) (table : List ModuleMapEntry) : Prop where
  vm : table.Pairwise fun e e' => ∀ x ∈ e.vmRange, x ∉ e'.vmRange
  file : (table.filter (isMainBinaryModule mainBinary)).Pairwise fun e e' =>
    ∀ x ∈ e.fileRange, x ∉ e'.fileRange
  noWrap : ∀ e ∈ table, isMainBinaryModule mainBinary e → e.NoWrap

/-- The listing shows the mappings of the main binary moved by `slide`, in any order and between any
other lines. -/
def SameMappings (realpath : Text → Option Text) (mainBinary : Text)
    (table : List ModuleMapEntry) (slide : U64) (lines : List Text) : Prop :=
  ∀ m, m ∈ lines.filterMap (mainMapping realpath mainBinary) ↔
    ∃ e ∈ table, isMainBinaryModule mainBinary e ∧
      m = ⟨e.vmStart + slide, e.vmEnd + slide, e.fileOffset, mainBinary⟩

/-! ## First matches -/

theorem find?_of_pairwise {α : Type*} {p : α → Bool} {l : List α} {a : α}
    (hdisj : l.Pairwise fun x y => ¬ (p x ∧ p y)) (ha : a ∈ l) (hp : p a) :
    l.find? p = some a := by
  induction l with
  | nil => cases ha
  | cons x l ih =>
      obtain ⟨hx, hl⟩ := List.pairwise_cons.mp hdisj
      rcases List.mem_cons.mp ha with rfl | ha
      · exact List.find?_cons_of_pos hp
      · rw [List.find?_cons_of_neg fun hpx => hx a ha ⟨hpx, hp⟩]
        exact ih hl ha

theorem findSome?_of_unique {α β : Type*} {f : α → Option β} {l : List α} {b : β}
    (hex : ∃ a ∈ l, f a = some b) (huniq : ∀ a ∈ l, ∀ b', f a = some b' → b' = b) :
    l.findSome? f = some b := by
  cases hfind : l.findSome? f with
  | none =>
      obtain ⟨a, ha, hfa⟩ := hex
      rw [List.findSome?_eq_none_iff.mp hfind a ha] at hfa
      cases hfa
  | some b' =>
      obtain ⟨a, ha, hfa⟩ := List.exists_of_findSome?_eq_some hfind
      rw [huniq a ha b' hfa]

/-- Of pairwise disjoint sets only one has a given element. -/
theorem eq_of_pairwise_disjoint {α β : Type*} {l : List α} {r : α → Set β} {x : β} {a b : α}
    (hdisj : l.Pairwise fun a b => ∀ x ∈ r a, x ∉ r b) (ha : a ∈ l) (hb : b ∈ l)
    (hxa : x ∈ r a) (hxb : x ∈ r b) : a = b := by
  by_contra hne
  have hsymm : Std.Symm fun a b => ∀ x ∈ r a, x ∉ r b := ⟨fun _ _ h x hb ha => h x ha hb⟩
  exact hdisj.forall ha hb hne x hxa hxb

/-! ## Offset and address -/

section Offsets

variable {e : ModuleMapEntry} {pc : U64}

/-- The offset of a PC is the place in the file that its mapping shows there. -/
theorem pcOffset_toNat (hwrap : e.NoWrap) (hpc : pc.toNat ∈ e.vmRange) :
    (pc - e.vmStart + e.fileOffset).toNat =
      e.fileOffset.toNat + (pc.toNat - e.vmStart.toNat) := by
  obtain ⟨hlo, hhi⟩ := hpc
  obtain ⟨-, hfile⟩ := hwrap
  rw [BitVec.toNat_add, BitVec.toNat_sub_of_le (BitVec.le_def.mpr hlo), Nat.add_comm,
    Nat.mod_eq_of_lt (by omega)]

theorem pcOffset_mem_fileRange (hwrap : e.NoWrap) (hpc : pc.toNat ∈ e.vmRange) :
    (pc - e.vmStart + e.fileOffset).toNat ∈ e.fileRange := by
  have hoff := pcOffset_toNat hwrap hpc
  obtain ⟨hlo, hhi⟩ := hpc
  exact ⟨by omega, by omega⟩

/-- The test of the second stage on the moved mapping. -/
theorem covers_iff (hwrap : e.NoWrap) (slide x : U64) :
    ¬ (x < e.fileOffset ∨ x ≥ e.fileOffset + (e.vmEnd + slide - (e.vmStart + slide))) ↔
      x.toNat ∈ e.fileRange := by
  obtain ⟨hle, hfile⟩ := hwrap
  have hspan : e.vmEnd + slide - (e.vmStart + slide) = e.vmEnd - e.vmStart := by grind
  have hend : (e.fileOffset + (e.vmEnd - e.vmStart)).toNat =
      e.fileOffset.toNat + (e.vmEnd.toNat - e.vmStart.toNat) := by
    rw [BitVec.toNat_add, BitVec.toNat_sub_of_le (BitVec.le_def.mpr hle), Nat.mod_eq_of_lt hfile]
  rw [hspan, not_or, BitVec.lt_def, ge_iff_le, BitVec.le_def, hend, not_lt, not_le]
  rfl

end Offsets

section Stages

variable {realpath : Text → Option Text} {mainBinary : Text} {table : List ModuleMapEntry}
  {e : ModuleMapEntry} {pc : U64}

theorem findModuleMap_eq (h : DisjointMaps mainBinary table) (he : e ∈ table)
    (hpc : pc.toNat ∈ e.vmRange) : findModuleMap table pc = some e := by
  refine find?_of_pairwise (h.vm.imp fun {a b} hab => ?_) he ?_
  · rintro ⟨ha, hb⟩
    rw [decide_eq_true_eq, BitVec.le_def, BitVec.lt_def] at ha hb
    exact hab pc.toNat ha hb
  · rw [decide_eq_true_eq, BitVec.le_def, BitVec.lt_def]
    exact hpc

theorem hotspotKey_eq (h : DisjointMaps mainBinary table) (he : e ∈ table)
    (hmain : isMainBinaryModule mainBinary e) (hpc : pc.toNat ∈ e.vmRange) :
    hotspotKey mainBinary table pc = some ⟨e.moduleId, pc - e.vmStart + e.fileOffset⟩ := by
  rw [hotspotKey, findModuleMap_eq h he hpc]
  exact if_pos hmain

theorem findModuleMap_some (h : findModuleMap table pc = some e) :
    e ∈ table ∧ pc.toNat ∈ e.vmRange := by
  have hin := List.find?_some h
  rw [decide_eq_true_eq, BitVec.le_def, BitVec.lt_def] at hin
  exact ⟨List.mem_of_find?_eq_some h, hin⟩

/-- Every recorded PC lies in a mapping of the main binary. -/
theorem hotspotKey_some {key : HotspotKey} (h : hotspotKey mainBinary table pc = some key) :
    ∃ e, findModuleMap table pc = some e ∧ isMainBinaryModule mainBinary e ∧
      key = ⟨e.moduleId, pc - e.vmStart + e.fileOffset⟩ := by
  unfold hotspotKey at h
  cases hfind : findModuleMap table pc with
  | none =>
      rw [hfind] at h
      cases h
  | some e =>
      rw [hfind] at h
      dsimp only at h
      split_ifs at h with hmain
      exact ⟨e, rfl, hmain, (Option.some.inj h).symm⟩

/-- Mappings of the main binary are told apart by their file ranges. -/
theorem DisjointMaps.file_unique (h : DisjointMaps mainBinary table) {e' : ModuleMapEntry} {x : ℕ}
    (he : e ∈ table) (hmain : isMainBinaryModule mainBinary e) (he' : e' ∈ table)
    (hmain' : isMainBinaryModule mainBinary e') (hx : x ∈ e.fileRange) (hx' : x ∈ e'.fileRange) :
    e = e' :=
  eq_of_pairwise_disjoint h.file (List.mem_filter.mpr ⟨he, hmain⟩)
    (List.mem_filter.mpr ⟨he', hmain'⟩) hx hx'

theorem resolveAbsolutePc_eq (h : DisjointMaps mainBinary table) (he : e ∈ table)
    (hmain : isMainBinaryModule mainBinary e) (hpc : pc.toNat ∈ e.vmRange) {slide : U64}
    {lines : List Text} (hsame : SameMappings realpath mainBinary table slide lines) :
    resolveAbsolutePc realpath mainBinary (pc - e.vmStart + e.fileOffset) lines =
      .ok (pc + slide) := by
  have hcover := pcOffset_mem_fileRange (h.noWrap e he hmain) hpc
  have hback : e.vmStart + slide + (pc - e.vmStart + e.fileOffset - e.fileOffset) = pc + slide := by
    grind
  generalize pc - e.vmStart + e.fileOffset = x at hcover hback ⊢
  unfold resolveAbsolutePc
  rw [findSome?_of_unique (b := pc + slide)]
  · rfl
  · obtain ⟨line, hline, hmap⟩ := List.mem_filterMap.mp ((hsame _).mpr ⟨e, he, hmain, rfl⟩)
    refine ⟨line, hline, ?_⟩
    simp only [hmap, if_neg ((covers_iff (h.noWrap e he hmain) slide x).mpr hcover), hback]
  · intro line hline pc' hfound
    cases hmap : mainMapping realpath mainBinary line with
    | none => simp [hmap] at hfound
    | some m =>
        obtain ⟨e', he', hmain', rfl⟩ := (hsame m).mp (List.mem_filterMap.mpr ⟨line, hline, hmap⟩)
        simp only [hmap] at hfound
        -- the line passed the test, so it is the moved mapping of the PC itself
        split_ifs at hfound with htest
        have hcover' := (covers_iff (h.noWrap e' he' hmain') slide x).mp htest
        obtain rfl := h.file_unique he hmain he' hmain' hcover hcover'
        rw [← Option.some.inj hfound, hback]

end Stages

/-! ## Lines as the kernel prints them -/

/-- `%08lx`. -/
def hexPadded (v : U64) : Text := List.replicate (8 - (hexU64 v).length) '0' ++ hexU64 v

/-- A line of `/proc/self/maps` for an executable mapping; blanks fill up to the path. -/
def MapsLine.print (m : MapsLine) (dev inode : Text) (blanks : ℕ) : Text :=
  hexPadded m.vmStart ++ '-' :: hexPadded m.vmEnd ++ " r-xp ".toList ++
    (hexPadded m.fileOffset ++ ' ' :: dev ++ ' ' :: inode ++ ' ' :: List.replicate blanks ' ' ++ m.path)

theorem hexPadded_digits (v : U64) : hexPadded v ≠ [] ∧ (∀ c ∈ hexPadded v, digitValue c < 16) ∧
    digitsValue 16 (hexPadded v) = v.toNat := by
  refine ⟨?_, fun c hc => ?_, ?_⟩
  · exact List.append_ne_nil_of_right_ne_nil _ Nat.toDigits_ne_nil
  · rcases List.mem_append.mp hc with hc | hc
    · rw [List.eq_of_mem_replicate hc]
      decide
    · exact digitValue_lt_of_mem (by decide) (by decide) hc
  · rw [hexPadded, digitsValue_replicate_zero]
    exact digitsValue_toDigits (by decide) (by decide) _

theorem cstr_of_digits {s : Text} (h : ∀ c ∈ s, digitValue c < 36 ∨ c = '-') : cstr s = s := by
  refine List.takeWhile_eq_self_iff.mpr fun c hc => ?_
  rw [bne_iff_ne]
  rintro rfl
  rcases h _ hc with h0 | h0 <;> revert h0 <;> decide

theorem parseMapsLine_print (m : MapsLine) {dev inode : Text} (hdev : IsWord dev)
    (hinode : IsWord inode) (blanks : ℕ) :
    parseMapsLine (m.print dev inode blanks) =
      some { m with path := ' ' :: List.replicate blanks ' ' ++ m.path } := by
  obtain ⟨hne, hds, hv⟩ := hexPadded_digits m.vmStart
  obtain ⟨hne', hds', hv'⟩ := hexPadded_digits m.vmEnd
  obtain ⟨hneo, hdso, hvo⟩ := hexPadded_digits m.fileOffset
  have hblank : ∀ c, digitValue c < 16 → isspace c = false := fun c hc =>
    isspace_eq_false (hc.trans (by decide))
  have hdigits : ∀ c ∈ hexPadded m.vmStart ++ '-' :: hexPadded m.vmEnd,
      digitValue c < 16 ∨ c = '-' := by
    intro c hc
    simp only [List.mem_append, List.mem_cons] at hc
    rcases hc with hc | hc | hc
    · exact .inl (hds c hc)
    · exact .inr hc
    · exact .inl (hds' c hc)
  have hrange : IsWord (hexPadded m.vmStart ++ '-' :: hexPadded m.vmEnd) := by
    refine ⟨by simp, fun c hc => ?_⟩
    rcases hdigits c hc with h | rfl
    · exact hblank c h
    · rfl
  have hperms : IsWord ['r', '-', 'x', 'p'] := by
    refine ⟨by simp, ?_⟩
    simp only [List.forall_mem_cons, List.not_mem_nil, false_implies, implies_true, and_true]
    exact ⟨rfl, rfl, rfl, rfl⟩
  have hoffset : IsWord (hexPadded m.fileOffset) := ⟨hneo, fun c hc => hblank c (hdso c hc)⟩
  have hprint : m.print dev inode blanks =
      (hexPadded m.vmStart ++ '-' :: hexPadded m.vmEnd) ++ ' ' :: (['r', '-', 'x', 'p'] ++
        ' ' :: (hexPadded m.fileOffset ++ ' ' :: (dev ++ ' ' :: (inode ++
          ' ' :: (List.replicate blanks ' ' ++ m.path))))) := by
    simp [MapsLine.print]
  have hstart : strtoull 16 (hexPadded m.vmStart ++ '-' :: hexPadded m.vmEnd) =
      (m.vmStart, '-' :: hexPadded m.vmEnd) := strtoull_hex hne hds (by simp; decide) hv
  have hend : strtoull 16 (hexPadded m.vmEnd ++ []) = (m.vmEnd, []) :=
    strtoull_hex hne' hds' (by simp) hv'
  have hoff : strtoull 16 (hexPadded m.fileOffset ++ []) = (m.fileOffset, []) :=
    strtoull_hex hneo hdso (by simp) hvo
  rw [List.append_nil] at hend hoff
  -- the five words of the line, one after the other
  unfold parseMapsLine
  rw [hprint, word_append hrange rfl]
  dsimp only [Option.bind_eq_bind, Option.bind_some]
  rw [word_space, word_append hperms rfl]
  dsimp only [Option.bind_eq_bind, Option.bind_some]
  rw [word_space, word_append hoffset rfl]
  dsimp only [Option.bind_eq_bind, Option.bind_some]
  rw [word_space, word_append hdev rfl]
  dsimp only [Option.bind_eq_bind, Option.bind_some]
  rw [word_space, word_append hinode rfl]
  dsimp only [Option.bind_eq_bind, Option.bind_some]
  rw [if_neg (by decide),
    cstr_of_digits fun c hc => (hdigits c hc).imp_left fun h => h.trans (by decide),
    cstr_of_digits fun c hc => .inl ((hdso c hc).trans (by decide)),
    hstart]
  simp only [List.head?_cons, List.drop_succ_cons, List.drop_zero, ne_eq, not_true_eq_false,
    if_false, hend, hoff, List.cons_append]

/-- The second stage reads the kernel's line for a mapping of the main binary as that mapping. -/
theorem mainMapping_print {realpath : Text → Option Text} (m : MapsLine) {dev inode : Text}
    (hdev : IsWord dev) (hinode : IsWord inode) (blanks : ℕ)
    (hfirst : ∀ c ∈ m.path.head?, isspace c = false)
    (hlast : ∀ c ∈ m.path.getLast?, isspace c = false)
    (hreal : normalizeFilesystemPath realpath m.path = m.path) :
    mainMapping realpath m.path (m.print dev inode blanks) = some m := by
  unfold mainMapping
  rw [parseMapsLine_print m hdev hinode blanks]
  have htrim := trimAsciiSpace_padded hfirst hlast (blanks + 1)
  rw [List.replicate_succ] at htrim
  dsimp only
  rw [htrim, hreal, if_neg (by simp)]

/-! ## The trip through the manifest -/

/-- A PC of the main binary comes back moved by the slide of its mappings, and its offset names no
other PC. The kernel's line for a mapping of the main binary is read as that mapping. -/
theorem pc_identity_survives (mainBinary : Text) (table : List ModuleMapEntry)
    (h : DisjointMaps mainBinary table) :
    (∀ e ∈ table, isMainBinaryModule mainBinary e → ∀ pc : U64, pc.toNat ∈ e.vmRange →
      ∃ key, hotspotKey mainBinary table pc = some key ∧
        ∀ realpath slide lines, SameMappings realpath mainBinary table slide lines →
          resolveAbsolutePc realpath mainBinary key.pcOffset lines = .ok (pc + slide)) ∧
      (∀ pc pc' key key', hotspotKey mainBinary table pc = some key →
        hotspotKey mainBinary table pc' = some key' → key.pcOffset = key'.pcOffset → pc = pc') ∧
      ∀ realpath (m : MapsLine) dev inode blanks, IsWord dev → IsWord inode →
        m.path = mainBinary → normalizeFilesystemPath realpath mainBinary = mainBinary →
        (∀ c ∈ mainBinary.head?, isspace c = false) →
        (∀ c ∈ mainBinary.getLast?, isspace c = false) →
          mainMapping realpath mainBinary (m.print dev inode blanks) = some m := by
  refine ⟨?_, ?_, ?_⟩
  · intro e he hmain pc hpc
    refine ⟨_, hotspotKey_eq h he hmain hpc, ?_⟩
    intro realpath slide lines hsame
    exact resolveAbsolutePc_eq h he hmain hpc hsame
  · intro pc pc' key key' hkey hkey' hoff
    obtain ⟨e, hfind, hmain, rfl⟩ := hotspotKey_some hkey
    obtain ⟨e', hfind', hmain', rfl⟩ := hotspotKey_some hkey'
    obtain ⟨he, hpc⟩ := findModuleMap_some hfind
    obtain ⟨he', hpc'⟩ := findModuleMap_some hfind'
    have hcover := pcOffset_mem_fileRange (h.noWrap e he hmain) hpc
    have hcover' := pcOffset_mem_fileRange (h.noWrap e' he' hmain') hpc'
    dsimp only at hoff
    rw [← hoff] at hcover'
    obtain rfl := h.file_unique he hmain he' hmain' hcover hcover'
    grind
  · rintro realpath m dev inode blanks hdev hinode rfl hreal hfirst hlast
    exact mainMapping_print m hdev hinode blanks hfirst hlast hreal

/-- A PC of one run found again in the next, where the program sits elsewhere. -/
theorem pc_identity_survives_small :
    let app := "/opt/app".toList
    let table := snapshotModuleMaps some
      ["00401000-00402000 r-xp 00001000 08:02 17   /opt/app".toList,
        "7f000000-7f001000 r-xp 00000000 08:02 18 /lib/c".toList] []
    ∃ key, hotspotKey app table 0x401234 = some key ∧
      resolveAbsolutePc some app key.pcOffset
        ["5f000000-5f001000 r--p 00000000 08:02 17 /opt/app".toList,
          "5f001000-5f002000 r-xp 00001000 08:02 17 /opt/app".toList] = .ok 0x5f001234 := by
  intro app table
  have htable : table = [⟨0, 0x401000, 0x402000, 0x1000, app⟩,
      ⟨1, 0x7f000000, 0x7f001000, 0, "/lib/c".toList⟩] := by
    decide +kernel
  have hmain : table.filter (isMainBinaryModule app) =
      [⟨0, 0x401000, 0x402000, 0x1000, app⟩] := by
    decide +kernel
  have hlines : ["5f000000-5f001000 r--p 00000000 08:02 17 /opt/app".toList,
      "5f001000-5f002000 r-xp 00001000 08:02 17 /opt/app".toList].filterMap
        (mainMapping some app) = [⟨0x5f001000, 0x5f002000, 0x1000, app⟩] := by
    decide +kernel
  have hdisj : DisjointMaps app table := by
    refine ⟨?_, ?_, fun e he hm => ?_⟩
    · rw [htable, List.pairwise_pair]
      intro x hx hx'
      exact absurd (hx'.1.trans_lt hx.2) (by decide)
    · rw [hmain]
      exact List.pairwise_singleton _ _
    · have hmem := List.mem_filter.mpr ⟨he, hm⟩
      rw [hmain, List.mem_singleton] at hmem
      subst hmem
      exact ⟨by decide, by decide⟩
  obtain ⟨hmem, hm⟩ : ⟨0, 0x401000, 0x402000, 0x1000, app⟩ ∈ table ∧
      isMainBinaryModule app ⟨0, 0x401000, 0x402000, 0x1000, app⟩ = true :=
    List.mem_filter.mp (hmain ▸ List.mem_singleton_self _)
  obtain ⟨key, hkey, hback⟩ := (pc_identity_survives app table hdisj).1 _ hmem hm 0x401234
    ⟨by decide, by decide⟩
  refine ⟨key, hkey, hback some 0x5ec00000 _ fun m => ?_⟩
  simp only [← and_assoc, ← List.mem_filter, hmain, hlines, List.mem_singleton, exists_eq_left]
  rfl

end RdSpeTool
