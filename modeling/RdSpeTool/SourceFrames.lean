import RdSpeTool.ByteRecords
import RdSpeTool.Disassembly
import RdSpeTool.PyText

/-!
# Source frames from `addr2line`

`resolve_hotspots.py` asks `addr2line` for the source lines of all offsets at once. With `-i` the
tool prints one pair of lines per inlined level, pair after pair, and nothing between two addresses.
The script takes one pair per offset.
-/

namespace RdSpeTool

open PyText

structure SourceFrame where
  function : Text
  file : Text
  line : ℕ
  column : ℕ
  rawLocation : Text
  deriving DecidableEq

/-! ## The script -/

def lineAndColumn (s : Text) : Option (ℕ × ℕ) :=
  let line := s.takeWhile isdecimal
  let atEnd := fun t : Text => t.head?.all isspace
  if line = [] then none
  else
    match s.dropWhile isdecimal with
    | ':' :: t =>
        let column := t.takeWhile isdecimal
        if column ≠ [] ∧ atEnd (t.dropWhile isdecimal) then
          some (decimalValue line, decimalValue column)
        else none
    | t => if atEnd t then some (decimalValue line, 0) else none

/-- `LOC_RE`: the shortest file name in front of a colon that line and column follow. -/
def matchLocation (file : Text) : Text → Option (Text × ℕ × ℕ)
  | [] => none
  | c :: s =>
      match if c = ':' then lineAndColumn s else none with
      | some p => some (file, p)
      | none => matchLocation (file ++ [c]) s

def parseLocation (loc : Text) : Text × ℕ × ℕ :=
  let loc := strip loc
  if ["".toList, "??:?".toList, "??:0".toList].contains loc then ([], 0, 0)
  else (matchLocation [] loc).getD (loc, 0, 0)

section Script

/- `normalizePath` resolves a path in the file system. -/
variable (normalizePath : Text → Text)

def frameOf (p : Text × Text) : SourceFrame :=
  let location := parseLocation (strip p.2)
  ⟨strip p.1, normalizePath location.1, location.2.1, location.2.2, strip p.2⟩

abbrev FrameDict := ℕ → Option (List SourceFrame)

/-- One round of the loop over the offsets, with the place in the output and the frames so far. -/
def takePair (lines : List Text) (s : ℕ × FrameDict) (offset : ℕ) : ℕ × FrameDict :=
  if s.1 + 1 < lines.length then
    (s.1 + 2, Function.update s.2 offset
      (some [frameOf normalizePath (lines.getD s.1 [], lines.getD (s.1 + 1) [])]))
  else (s.1, Function.update s.2 offset (some []))

/-- `addr2line` gives the lines of its output, or nothing if it fails. -/
def framesFromAddr2line (addr2line : List ℕ → Option (List Text)) (offsets : List ℕ) : FrameDict :=
  if offsets = [] then fun _ => none
  else
    match addr2line offsets with
    | none => fun _ => none
    | some lines => (offsets.foldl (takePair normalizePath lines) (0, fun _ => none)).2

/-- `frames` is what `llvm-symbolizer` found, nothing if it is absent. -/
def symbolizeModule (addr2line : List ℕ → Option (List Text)) (frames : FrameDict)
    (offsets : List ℕ) : FrameDict :=
  let missing := offsets.filter fun o => (frames o).getD [] = []
  if missing = [] then frames
  else fun o => (framesFromAddr2line normalizePath addr2line missing o).or (frames o)

end Script

/-! ## One pair per offset -/

def printedLines (printed : ℕ → List (Text × Text)) (offsets : List ℕ) : List Text :=
  (offsets.flatMap printed).flatMap fun p => [p.1, p.2]

section Pairs

variable {normalizePath : Text → Text} {printed : ℕ → List (Text × Text)} {offsets : List ℕ}

theorem getD_printedLines {stream : List (Text × Text)} {i : ℕ} (hi : i < stream.length) :
    ((stream.flatMap fun p => [p.1, p.2]).getD (2 * i) [],
      (stream.flatMap fun p => [p.1, p.2]).getD (2 * i + 1) []) = stream[i] := by
  have hdrop : (stream.flatMap fun p => [p.1, p.2]).drop (i * 2) =
      (stream.drop i).flatMap fun p => [p.1, p.2] := by
    apply ByteRecords.drop_flatMap
    intro p _
    rfl
  rw [List.drop_eq_getElem_cons hi, List.flatMap_cons] at hdrop
  have hget : ∀ k, (stream.flatMap fun p => [p.1, p.2])[2 * i + k]? =
      ([stream[i].1, stream[i].2] ++ (stream.drop (i + 1)).flatMap fun p => [p.1, p.2])[k]? := by
    intro k
    rw [← hdrop, List.getElem?_drop, Nat.mul_comm i 2]
  rw [List.getD_eq_getElem?_getD, List.getD_eq_getElem?_getD, hget 1]
  have h0 := hget 0
  rw [Nat.add_zero] at h0
  rw [h0]
  rfl

/-- A list of offsets has at least as many pairs. -/
theorem length_le_pairs (h : ∀ o ∈ offsets, printed o ≠ []) :
    offsets.length ≤ (offsets.flatMap printed).length := by
  induction offsets with
  | nil => exact le_rfl
  | cons o offsets ih =>
      rw [List.forall_mem_cons] at h
      have hpos := List.length_pos_of_ne_nil h.1
      have hrest := ih h.2
      rw [List.flatMap_cons, List.length_append, List.length_cons]
      omega

/-- An offset at its last place gets the pair with the number of that place. -/
theorem foldl_takePair {lines : List Text} {stream : List (Text × Text)}
    (hlines : lines = stream.flatMap fun p => [p.1, p.2]) {os : List ℕ}
    (hlen : os.length ≤ stream.length) :
    (os.foldl (takePair normalizePath lines) (0, fun _ => none)).1 = 2 * os.length ∧
      (∀ o, o ∉ os → (os.foldl (takePair normalizePath lines) (0, fun _ => none)).2 o = none) ∧
      ∀ i o p, os[i]? = some o → o ∉ os.drop (i + 1) → stream[i]? = some p →
        (os.foldl (takePair normalizePath lines) (0, fun _ => none)).2 o =
          some [frameOf normalizePath p] := by
  induction os using List.reverseRecOn with
  | nil => exact ⟨rfl, fun _ _ => rfl, fun i o p h => by simp at h⟩
  | append_singleton os a ih =>
      rw [List.length_append, List.length_singleton] at hlen
      obtain ⟨hidx, hnone, hdict⟩ := ih (by omega)
      have hlineLen : lines.length = stream.length * 2 := by
        rw [hlines]
        exact ByteRecords.length_flatMap fun _ _ => rfl
      have hstep : (os ++ [a]).foldl (takePair normalizePath lines) (0, fun _ => none) =
          (2 * os.length + 2, Function.update
            (os.foldl (takePair normalizePath lines) (0, fun _ => none)).2 a
            (some [frameOf normalizePath (stream[os.length])])) := by
        rw [List.foldl_append, List.foldl_cons, List.foldl_nil]
        unfold takePair at hidx ⊢
        rw [hidx, if_pos (by omega), hlines, getD_printedLines (by omega)]
      rw [hstep]
      refine ⟨by rw [List.length_append, List.length_singleton]; omega, fun o ho => ?_,
        fun i o p hi hlast hp => ?_⟩
      · rw [List.mem_append, not_or, List.mem_singleton] at ho
        dsimp only
        rw [Function.update_of_ne ho.2]
        exact hnone o ho.1
      · dsimp only
        by_cases hlt : i < os.length
        · rw [List.getElem?_append_left hlt] at hi
          rw [List.drop_append_of_le_length (by omega), List.mem_append, not_or,
            List.mem_singleton] at hlast
          rw [Function.update_of_ne hlast.2]
          exact hdict i o p hi hlast.1 hp
        · have hieq : i = os.length := by
            have := (List.getElem?_eq_some_iff.mp hi).1
            rw [List.length_append, List.length_singleton] at this
            omega
          subst hieq
          rw [List.getElem?_append_right le_rfl, Nat.sub_self] at hi
          obtain rfl : a = o := Option.some.inj hi
          rw [List.getElem?_eq_getElem (by omega)] at hp
          rw [Function.update_self, Option.some.inj hp]

theorem exists_last {o : ℕ} (h : o ∈ offsets) :
    ∃ i, offsets[i]? = some o ∧ o ∉ offsets.drop (i + 1) := by
  induction offsets with
  | nil => cases h
  | cons a offsets ih =>
      by_cases hmem : o ∈ offsets
      · obtain ⟨i, hi, hlast⟩ := ih hmem
        exact ⟨i + 1, hi, hlast⟩
      · obtain rfl : o = a := (List.mem_cons.mp h).resolve_right hmem
        exact ⟨0, rfl, hmem⟩

end Pairs

/-! ## Frames and their offsets -/

section Attribution

variable (normalizePath : Text → Text) (printed : ℕ → List (Text × Text)) (offsets : List ℕ)

/-- Every offset has some of its own frames, from the innermost on. -/
def FramesKept (frames : FrameDict) : Prop :=
  ∀ o ∈ offsets, ∃ fs, frames o = some fs ∧ fs ≠ [] ∧
    fs <+: (printed o).map (frameOf normalizePath)

/-- The pair with the number of an offset's last place shows the offset's first frame. -/
def PairsInStep : Prop :=
  ∀ i o, offsets[i]? = some o → o ∉ offsets.drop (i + 1) →
    ((offsets.flatMap printed)[i]?).map (frameOf normalizePath) =
      (printed o).head?.map (frameOf normalizePath)

variable {normalizePath printed offsets}

theorem framesKept_iff (hprint : ∀ o ∈ offsets, printed o ≠ [])
    {addr2line : List ℕ → Option (List Text)}
    (htool : addr2line offsets = some (printedLines printed offsets)) :
    FramesKept normalizePath printed offsets
        (framesFromAddr2line normalizePath addr2line offsets) ↔
      PairsInStep normalizePath printed offsets := by
  have hpairs := length_le_pairs hprint
  obtain ⟨-, -, hdict⟩ := @foldl_takePair normalizePath _ _ rfl offsets hpairs
  have hframes : ∀ o ∈ offsets, framesFromAddr2line normalizePath addr2line offsets o =
      (offsets.foldl (takePair normalizePath (printedLines printed offsets))
        (0, fun _ => none)).2 o := by
    intro o ho
    unfold framesFromAddr2line
    rw [if_neg (List.ne_nil_of_mem ho), htool]
  -- an offset at its last place, its pair in the stream and its own first pair
  have hat : ∀ {i o}, offsets[i]? = some o → o ∉ offsets.drop (i + 1) → ∃ p q rest,
      (offsets.flatMap printed)[i]? = some p ∧ printed o = q :: rest ∧
        framesFromAddr2line normalizePath addr2line offsets o = some [frameOf normalizePath p] := by
    intro i o hi hlast
    have ho := List.mem_of_getElem? hi
    have hlt := (List.getElem?_eq_some_iff.mp hi).1
    have hp : (offsets.flatMap printed)[i]? = some (offsets.flatMap printed)[i] :=
      List.getElem?_eq_getElem (by omega)
    obtain ⟨q, rest, hq⟩ := List.exists_cons_of_ne_nil (hprint o ho)
    exact ⟨_, q, rest, hp, hq, (hframes o ho).trans (hdict i o _ hi hlast hp)⟩
  constructor
  · intro hkept i o hi hlast
    obtain ⟨p, q, rest, hp, hq, hfs⟩ := hat hi hlast
    obtain ⟨fs, hfs', -, hpre⟩ := hkept o (List.mem_of_getElem? hi)
    rw [hfs] at hfs'
    rw [← Option.some.inj hfs', hq, List.map_cons, List.cons_prefix_cons] at hpre
    rw [hp, hq, Option.map_some, List.head?_cons, Option.map_some, hpre.1]
  · intro hstep o ho
    obtain ⟨i, hi, hlast⟩ := exists_last ho
    obtain ⟨p, q, rest, hp, hq, hfs⟩ := hat hi hlast
    have heq := hstep i o hi hlast
    rw [hp, hq, Option.map_some, List.head?_cons, Option.map_some] at heq
    refine ⟨_, hfs, List.cons_ne_nil _ _, ?_⟩
    rw [hq, List.map_cons, List.cons_prefix_cons]
    exact ⟨Option.some.inj heq, List.nil_prefix⟩

/-- Where the pairs of an offset start in the output. -/
theorem getElem?_start {i : ℕ} {o : ℕ} (hi : offsets[i]? = some o) (ho : printed o ≠ []) :
    (offsets.flatMap printed)[((offsets.take i).flatMap printed).length]? = (printed o).head? := by
  obtain ⟨hlt, hget⟩ := List.getElem?_eq_some_iff.mp hi
  have hsplit : offsets.flatMap printed =
      (offsets.take i).flatMap printed ++ (printed o ++ (offsets.drop (i + 1)).flatMap printed) := by
    rw [← hget, ← List.flatMap_cons, ← List.drop_eq_getElem_cons hlt, ← List.flatMap_append,
      List.take_append_drop]
  obtain ⟨q, rest, hq⟩ := List.exists_cons_of_ne_nil ho
  rw [hsplit, List.getElem?_append_right le_rfl, Nat.sub_self, hq]
  rfl

/-- One pair for each of the first addresses keeps the rest in step. -/
theorem length_flatMap_single {os : List ℕ} (h : ∀ o ∈ os, (printed o).length = 1) :
    (os.flatMap printed).length = os.length := by
  rw [ByteRecords.length_flatMap h, Nat.mul_one]

theorem pairsInStep_of_single (hprint : ∀ o ∈ offsets, printed o ≠ [])
    (h : ∀ o ∈ offsets.dropLast, (printed o).length = 1) :
    PairsInStep normalizePath printed offsets := by
  intro i o hi _
  have hlt := (List.getElem?_eq_some_iff.mp hi).1
  have hstart : ((offsets.take i).flatMap printed).length = i := by
    rw [length_flatMap_single, List.length_take]
    · omega
    · intro o' ho'
      apply h
      have htake : offsets.take i = offsets.dropLast.take i := by
        rw [List.dropLast_eq_take, List.take_take, min_eq_left (by omega)]
      rw [htake] at ho'
      exact List.mem_of_mem_take ho'
  have hget := getElem?_start hi (hprint o (List.mem_of_getElem? hi))
  rw [hstart] at hget
  rw [hget]

/-- Different frames come from different offsets. -/
theorem nodup_offsets (hprint : ∀ o ∈ offsets, printed o ≠ [])
    (hnd : (offsets.flatMap printed).Nodup) : offsets.Nodup := by
  obtain ⟨-, hdisj⟩ := List.nodup_flatMap.mp hnd
  apply hdisj.imp_of_mem
  rintro a b ha - hab rfl
  obtain ⟨p, hp⟩ := List.exists_mem_of_ne_nil _ (hprint a ha)
  exact hab hp hp

/-- If no frame appears twice, the offsets stay in step only with one pair each, the last one apart. -/
theorem single_of_pairsInStep (hprint : ∀ o ∈ offsets, printed o ≠ [])
    (hnd : ((offsets.flatMap printed).map (frameOf normalizePath)).Nodup)
    (h : PairsInStep normalizePath printed offsets) :
    ∀ o ∈ offsets.dropLast, (printed o).length = 1 := by
  have hoffsets := nodup_offsets hprint hnd.of_map
  have hpairs := length_le_pairs hprint
  -- every group starts at the number of its offset
  have hstart : ∀ i, i < offsets.length → ((offsets.take i).flatMap printed).length = i := by
    intro i hi
    have hget := List.getElem?_eq_getElem hi
    have hlast : offsets[i] ∉ offsets.drop (i + 1) := by
      have hdrop := hoffsets.sublist (List.drop_sublist i offsets)
      rw [List.drop_eq_getElem_cons hi, List.nodup_cons] at hdrop
      exact hdrop.1
    have hne := hprint _ (List.getElem_mem hi)
    have hframe := h i _ hget hlast
    rw [← getElem?_start hget hne, ← List.getElem?_map, ← List.getElem?_map] at hframe
    have hlt : i < ((offsets.flatMap printed).map (frameOf normalizePath)).length := by
      rw [List.length_map]
      omega
    exact ((List.getElem?_inj hlt hnd).mp hframe).symm
  intro o ho
  obtain ⟨i, hi⟩ := List.mem_iff_getElem?.mp ho
  rw [List.dropLast_eq_take, List.getElem?_take] at hi
  split_ifs at hi with hlt
  have hnext := hstart (i + 1) (by omega)
  rw [List.take_add_one, hi, List.flatMap_append, List.length_append, hstart i (by omega)] at hnext
  have hone : ((some o).toList.flatMap printed) = printed o := List.append_nil _
  rw [hone] at hnext
  omega

/-- Every offset keeps frames of its own just when, for each one, the pair with the number of its last
place shows its first frame. If the printed frames all differ, this says that no offset but the last
is inlined. -/
theorem addr2line_frames_kept_iff (normalizePath : Text → Text)
    (printed : ℕ → List (Text × Text)) (offsets : List ℕ) (hprint : ∀ o ∈ offsets, printed o ≠ [])
    (addr2line : List ℕ → Option (List Text))
    (htool : addr2line offsets = some (printedLines printed offsets)) :
    symbolizeModule normalizePath addr2line (fun _ => none) offsets =
        framesFromAddr2line normalizePath addr2line offsets ∧
      (FramesKept normalizePath printed offsets
          (framesFromAddr2line normalizePath addr2line offsets) ↔
        PairsInStep normalizePath printed offsets) ∧
      ((∀ o ∈ offsets.dropLast, (printed o).length = 1) →
        PairsInStep normalizePath printed offsets) ∧
      (((offsets.flatMap printed).map (frameOf normalizePath)).Nodup →
        PairsInStep normalizePath printed offsets →
          ∀ o ∈ offsets.dropLast, (printed o).length = 1) := by
  refine ⟨?_, framesKept_iff hprint htool, pairsInStep_of_single hprint,
    single_of_pairsInStep hprint⟩
  have hmissing : (offsets.filter fun o => ((fun _ => none : FrameDict) o).getD [] = []) =
      offsets := List.filter_eq_self.mpr fun _ _ => by simp
  unfold symbolizeModule
  rw [hmissing]
  by_cases hnil : offsets = []
  · rw [if_pos hnil, framesFromAddr2line, if_pos hnil]
  · rw [if_neg hnil]
    funext o
    exact Option.or_none

/-- Two offsets without inlining. -/
theorem addr2line_frames_kept_plain :
    let printed : ℕ → List (Text × Text) := fun o =>
      if o = 16 then [("f".toList, "/s/a.c:3".toList)] else [("g".toList, "/s/a.c:9".toList)]
    FramesKept id printed [16, 32] (framesFromAddr2line id
      (fun os => some (printedLines printed os)) [16, 32]) := by
  intro printed
  have hprint : ∀ o ∈ [16, 32], printed o ≠ [] := by decide
  obtain ⟨-, hiff, hsingle, -⟩ := addr2line_frames_kept_iff id printed [16, 32] hprint
    (fun os => some (printedLines printed os)) rfl
  exact hiff.mpr (hsingle (by decide))

/-- An inlined first offset hands its caller's line to the second one. -/
theorem addr2line_frame_of_other_offset :
    let printed : ℕ → List (Text × Text) := fun o =>
      if o = 16 then [("inner".toList, "/s/a.c:3".toList), ("outer".toList, "/s/a.c:40".toList)]
      else [("g".toList, "/s/b.c:9".toList)]
    ¬ FramesKept id printed [16, 32] (framesFromAddr2line id
      (fun os => some (printedLines printed os)) [16, 32]) := by
  intro printed hkept
  obtain ⟨fs, hfs, hne, hpre⟩ := hkept 32 (by decide)
  have heval : framesFromAddr2line id (fun os => some (printedLines printed os)) [16, 32] 32 =
      some [⟨"outer".toList, "/s/a.c".toList, 40, 0, "/s/a.c:40".toList⟩] := by
    decide +kernel
  rw [heval] at hfs
  rw [← Option.some.inj hfs] at hpre
  revert hpre
  decide +kernel

end Attribution

end RdSpeTool
