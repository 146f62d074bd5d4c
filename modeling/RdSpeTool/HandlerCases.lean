import RdSpeTool.Handlers

/-!
# What a hit can do to its thread

The branches of the capture functions, of the slot choice and of the breakpoint handler, taken
apart once. Facts about hits start from these and leave the bodies alone.
-/

namespace RdSpeTool

section Branches

variable (c : SessionCtl) (th : Thread)

theorem captureChain_fst (u : UserMem) (regs : Option PtRegs) : ∃ failed truncated,
    (captureChain c th u regs).1 =
      { th with callchainFailed := failed, callchainTruncated := truncated } := by
  unfold captureChain rdCaptureCallchain
  split_ifs
  · cases regs with
    | none => exact ⟨_, _, rfl⟩
    | some r =>
        dsimp only
        split_ifs <;> exact ⟨_, _, rfl⟩
  · exact ⟨_, _, rfl⟩

theorem rdCaptureDwarfSnapshot_fst (u : UserMem) (regs : Option PtRegs) : ∃ failed,
    (rdCaptureDwarfSnapshot c th u regs).1 = { th with dwarfStackCopyFailed := failed } := by
  unfold rdCaptureDwarfSnapshot rdCopyUserStackSnapshot
  cases regs with
  | none => exact ⟨_, rfl⟩
  | some r =>
      dsimp only
      split_ifs <;> exact ⟨_, rfl⟩

/-- The choice counts the candidate; only a full table draws for its slots. -/
theorem rdPickWpSlot_fst : ∃ accepted rejected rng slots,
    (slots = th.slots ∨ slots = (replacePass th.rng th.slots).1) ∧
    (rdPickWpSlot c th).1 =
      { th with
          reservoirSeen := th.reservoirSeen + 1
          reservoirAccepted := accepted
          reservoirRejected := rejected
          rng := rng
          slots := slots } := by
  unfold rdPickWpSlot
  split_ifs
  · exact ⟨_, _, _, _, Or.inl rfl, rfl⟩
  · cases th.slots.findIdx? (fun s => s.state == .idle) with
    | some i => exact ⟨_, _, _, _, Or.inl rfl, rfl⟩
    | none =>
        dsimp only
        cases (replacePass th.rng th.slots).2.2 with
        | none => exact ⟨_, _, _, _, Or.inr rfl, rfl⟩
        | some i => exact ⟨_, _, _, _, Or.inr rfl, rfl⟩

/-- A breakpoint hit comes as far as the choice of a slot, which leaves `th'`. -/
structure ReachesChoice (t : ℕ) (regs : Option PtRegs) (env : HitEnv) (r : PtRegs)
    (target : Target) (a : U64) (th' : Thread) (choice : Option (ℕ × Bool)) : Prop where
  regs : regs = some r
  target : c.targets[t]? = some target
  active : th.active = true
  running : c.running = true
  reading : rdReadMemAccess th env.memAccess = some a
  picked : rdPickWpSlot c (captureChain c th env.user (some r)).1.addCandidate = (th', choice)

theorem rdHandleBpHit_cases (t : ℕ) (regs : Option PtRegs) (env : HitEnv) :
    rdHandleBpHit c th t regs env = th ∨
    ∃ r target a th' choice, ReachesChoice c th t regs env r target a th' choice ∧
      (rdHandleBpHit c th t regs env = th' ∨ rdHandleBpHit c th t regs env = th'.addRejected ∨
        ∃ i isReplacement, choice = some (i, isReplacement) ∧ i < c.wpCapacity ∧
          rdHandleBpHit c th t regs env =
            installSeed c (contextOf c th' (captureChain c th env.user (some r)).2).1 i
              isReplacement target t (rdComputeEffectiveAddress target.decode r) a
              (contextOf c th' (captureChain c th env.user (some r)).2).2 r env) := by
  unfold rdHandleBpHit
  cases regs with
  | none => exact Or.inl rfl
  | some r =>
      cases htarget : c.targets[t]? with
      | none => exact Or.inl rfl
      | some target =>
          dsimp only
          by_cases hoff : th.active = false ∨ c.running = false
          · rw [if_pos hoff]
            exact Or.inl rfl
          rw [if_neg hoff]
          rw [not_or, Bool.not_eq_false, Bool.not_eq_false] at hoff
          cases hread : rdReadMemAccess th env.memAccess with
          | none => exact Or.inl rfl
          | some a =>
              dsimp only
              cases hpick : rdPickWpSlot c (captureChain c th env.user (some r)).1.addCandidate with
              | mk th' choice =>
                  refine Or.inr ⟨r, target, a, th', choice,
                    ⟨rfl, htarget, hoff.1, hoff.2, hread, hpick⟩, ?_⟩
                  rcases choice with _ | ⟨i, isReplacement⟩
                  · exact Or.inl rfl
                  · dsimp only
                    split_ifs with hi
                    · exact Or.inr (Or.inl rfl)
                    · exact Or.inr (Or.inr ⟨i, isReplacement, rfl, not_le.mp hi, rfl⟩)

end Branches

end RdSpeTool
