import RdSpeTool.SampleDrain

/-!
# AUX space

The kernel hands out consecutive ranges of the AUX area and may reuse what lies before `aux_tail`.
A drain advances the tail by the sizes of the AUX records it decodes. The records it passes over,
all of them before the first window and those flagged exactly as truncated in a window, keep their
space for good.
-/

namespace RdSpeTool

/-! ## Runs of a slot -/

/-- A window opens, or the data ring is drained up to its head. -/
inductive SlotStep
  | start
  | drain (area : AuxArea) (records : List RingRecord)

def SlotStep.records : SlotStep → List RingRecord
  | .start => []
  | .drain _ records => records

def Sampler.slotStep (s : Sampler) : SlotStep → Sampler
  | .start => s.start
  | .drain area records => s.processSamplesLocked area records

/-- AUX records cover consecutive ranges from `pos` on. -/
def Consecutive (pos : U64) : List RingRecord → Prop
  | [] => True
  | .aux offset size _ :: records => offset = pos ∧ Consecutive (offset + size) records
  | _ :: records => Consecutive pos records

def auxEnd (pos : U64) : List RingRecord → U64
  | [] => pos
  | .aux offset size _ :: records => auxEnd (offset + size) records
  | _ :: records => auxEnd pos records

/-! ## Space passed over -/

/-- The bytes of AUX records that a drain passes over. -/
def skippedBytes (inWindow : Bool) : List RingRecord → U64
  | [] => 0
  | .aux _ size flags :: records =>
      (if inWindow ∧ flags ≠ auxFlagTruncated then 0 else size) + skippedBytes inWindow records
  | _ :: records => skippedBytes inWindow records

/-- Every drain of the run passes over no bytes; `inWindow` tells whether a window was opened before
the run. -/
def NothingSkipped : Bool → List SlotStep → Prop
  | _, [] => True
  | _, .start :: steps => NothingSkipped true steps
  | inWindow, .drain _ records :: steps =>
      skippedBytes inWindow records = 0 ∧ NothingSkipped inWindow steps

/-- The tail stands at the end of the last AUX record after every step of the run. -/
def AuxReturned (s : Sampler) (steps : List SlotStep) : Prop :=
  ∀ n, ((steps.take n).foldl Sampler.slotStep s).auxTail =
    auxEnd s.auxTail ((steps.take n).flatMap SlotStep.records)

/-! ## One drain -/

theorem Consecutive.of_append {pos : U64} {rs rs' : List RingRecord}
    (h : Consecutive pos (rs ++ rs')) : Consecutive pos rs ∧ Consecutive (auxEnd pos rs) rs' := by
  induction rs generalizing pos with
  | nil => exact ⟨trivial, h⟩
  | cons r rs ih =>
      cases r with
      | aux offset size flags =>
          obtain ⟨hpos, hrest⟩ := h
          obtain ⟨hrs, hrs'⟩ := ih hrest
          exact ⟨⟨hpos, hrs⟩, hrs'⟩
      | _ => exact ih h

theorem auxEnd_append (pos : U64) (rs rs' : List RingRecord) :
    auxEnd pos (rs ++ rs') = auxEnd (auxEnd pos rs) rs' := by
  induction rs generalizing pos with
  | nil => rfl
  | cons r rs ih => cases r <;> exact ih _

theorem Sampler.processRecord_auxTail (s : Sampler) (area : AuxArea) (offset size flags : U64) :
    (s.processRecord area (.aux offset size flags)).auxTail =
      s.auxTail + if flags ≠ auxFlagTruncated then size else 0 := by
  have hcollide : (s.noteCollision flags).auxTail = s.auxTail := by
    unfold noteCollision
    split_ifs <;> rfl
  unfold processRecord
  dsimp only
  split_ifs
  · rw [(decodeAux_frame ..).2, hcollide]
  · rw [hcollide]
    exact (BitVec.add_zero _).symm

/-- The tail and the bytes passed over make up the range of the records. -/
theorem Sampler.foldl_processRecord_auxTail (s : Sampler) (area : AuxArea) {pos : U64}
    {records : List RingRecord} (h : Consecutive pos records) :
    (records.foldl (fun s r => s.processRecord area r) s).auxTail + skippedBytes true records + pos =
      s.auxTail + auxEnd pos records := by
  induction records generalizing s pos with
  | nil => simp [skippedBytes, auxEnd]
  | cons r records ih =>
      rw [List.foldl_cons]
      cases r with
      | aux offset size flags =>
          obtain ⟨rfl, hrest⟩ := h
          have hstep := ih (s.processRecord area (.aux offset size flags)) hrest
          rw [s.processRecord_auxTail] at hstep
          simp only [skippedBytes, auxEnd, true_and]
          by_cases hflags : flags = auxFlagTruncated
          · simp only [hflags, ne_eq, not_true_eq_false, if_false] at hstep ⊢
            grind
          · simp only [hflags, ne_eq, not_false_eq_true, if_true] at hstep ⊢
            grind
      | _ => exact ih _ h

theorem skippedBytes_closed {pos : U64} {records : List RingRecord} (h : Consecutive pos records) :
    pos + skippedBytes false records = auxEnd pos records := by
  induction records generalizing pos with
  | nil => exact BitVec.add_zero pos
  | cons r records ih =>
      cases r with
      | aux offset size flags =>
          obtain ⟨rfl, hrest⟩ := h
          simp only [skippedBytes, auxEnd, Bool.false_eq_true, false_and, if_false,
            ← BitVec.add_assoc]
          exact ih hrest
      | _ => exact ih h

/-- A drain that starts level with the kernel ends level exactly if it passes over no bytes. -/
theorem Sampler.drain_auxTail_iff (s : Sampler) (area : AuxArea) {records : List RingRecord}
    (h : Consecutive s.auxTail records) :
    (s.processSamplesLocked area records).auxTail = auxEnd s.auxTail records ↔
      skippedBytes (decide (s.kinfos ≠ [])) records = 0 := by
  unfold processSamplesLocked
  by_cases hwin : s.kinfos = []
  · have hsum := skippedBytes_closed h
    simp only [hwin, if_true, ne_eq, not_true_eq_false, decide_false]
    grind
  · simp only [hwin, if_false, ne_eq, not_false_eq_true, decide_true]
    by_cases hnil : records = []
    · subst hnil
      simp [skippedBytes, auxEnd]
    · have hsum := foldl_processRecord_auxTail { s with numSamples := 0 } area h
      simp only [if_neg hnil]
      grind

/-! ## Whole runs -/

theorem Sampler.slotStep_kinfos (s : Sampler) (area : AuxArea) (records : List RingRecord) :
    decide ((s.slotStep (.drain area records)).kinfos ≠ []) = decide (s.kinfos ≠ []) := by
  have hlen := s.processSamplesLocked_kinfos area records
  rw [decide_eq_decide, ← List.length_pos_iff, ← List.length_pos_iff]
  simp only [slotStep, hlen]

theorem AuxReturned.cons_iff (s : Sampler) (step : SlotStep) (steps : List SlotStep) :
    AuxReturned s (step :: steps) ↔ (s.slotStep step).auxTail = auxEnd s.auxTail step.records ∧
      AuxReturned (s.slotStep step) steps := by
  constructor
  · intro h
    have hone : (s.slotStep step).auxTail = auxEnd s.auxTail step.records := by
      simpa using h 1
    refine ⟨hone, fun n => ?_⟩
    have hnext := h (n + 1)
    rw [List.take_succ_cons, List.foldl_cons, List.flatMap_cons, auxEnd_append, ← hone] at hnext
    exact hnext
  · rintro ⟨hone, hrest⟩ n
    cases n with
    | zero => rfl
    | succ n =>
        rw [List.take_succ_cons, List.foldl_cons, List.flatMap_cons, auxEnd_append, ← hone]
        exact hrest n

/-- All consumed AUX space is returned after every drain of a run exactly if no drain passes over
AUX bytes. -/
theorem aux_space_returned_iff (s : Sampler) (steps : List SlotStep)
    (h : Consecutive s.auxTail (steps.flatMap SlotStep.records)) :
    AuxReturned s steps ↔ NothingSkipped (decide (s.kinfos ≠ [])) steps := by
  induction steps generalizing s with
  | nil => exact iff_of_true (fun n => by simp [auxEnd]) trivial
  | cons step steps ih =>
      obtain ⟨hhere, hrest⟩ := h.of_append
      rw [AuxReturned.cons_iff]
      cases step with
      | start =>
          have hopen : decide (s.start.kinfos ≠ []) = true := by simp [Sampler.start]
          have hstart := ih s.start hrest
          rw [hopen] at hstart
          exact (and_iff_right rfl).trans hstart
      | drain area records =>
          refine Iff.trans (and_congr_right fun hlevel => ?_)
            (and_congr_left' (s.drain_auxTail_iff area hhere))
          have hdrain := ih (s.slotStep (.drain area records)) (hlevel ▸ hrest)
          rwa [s.slotStep_kinfos area records] at hdrain

/-- A record before the first window without bytes, then one with the truncation flag and a
collision. -/
theorem aux_space_returned_small : AuxReturned Sampler.fresh
    [.drain ⟨fun _ => 0, 4096⟩ [.aux 0 0 0], .start,
      .drain ⟨fun _ => 0, 4096⟩ [.throttle, .aux 0 64 0x9]] := by
  apply (aux_space_returned_iff _ _ (show Consecutive 0 [.aux 0 0 0, .throttle, .aux 0 64 0x9] from
    ⟨rfl, rfl, trivial⟩)).mpr
  exact ⟨rfl, rfl, trivial⟩

/-- A truncated record of 64 bytes stays in the way of the kernel. -/
theorem truncated_aux_kept : Consecutive Sampler.fresh.auxTail [.aux 0 64 auxFlagTruncated] ∧
    ¬ AuxReturned Sampler.fresh
      [.start, .drain ⟨fun _ => 0, 4096⟩ [.aux 0 64 auxFlagTruncated]] := by
  refine ⟨⟨rfl, trivial⟩, fun h => ?_⟩
  exact absurd (h 2) (by decide)

end RdSpeTool
