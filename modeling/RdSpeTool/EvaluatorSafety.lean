import RdSpeTool.Session

/-!
# What the evaluator of an accepted target does

The effective-address evaluator once more, with a record of the registers it reads and of the
shifts it performs. Target validation settles the registers and the access size; the shift count is
taken as it was sent.
-/

namespace RdSpeTool

inductive RegSource
  | general (i : Fin 31)
  | sp
  | pc
  | none
  deriving DecidableEq

def RegSource.value (regs : PtRegs) : RegSource → U64
  | general i => regs.regs i
  | sp => regs.sp
  | pc => regs.pc
  | none => 0

inductive EvalOp
  | read (src : RegSource)
  | shift (count : ℕ)
  deriving DecidableEq

/-- Only `x0 .. x30`, `sp` or nothing is read, and a 64-bit value is shifted by less than 64. -/
def EvalOp.Safe : EvalOp → Prop
  | read (.general _) => True
  | read .sp => True
  | read .none => True
  | read .pc => False
  | shift count => count < 64

theorem generalReg_lt {perfReg : ℤ} (h : 0 ≤ perfReg ∧ perfReg ≤ 29) : perfReg.toNat < 31 := by
  omega

def perfRegSource (perfReg : ℤ) (isSp : Bool) : RegSource :=
  if isSp ∨ perfReg = perfRegSp then .sp
  else if h : 0 ≤ perfReg ∧ perfReg ≤ 29 then .general ⟨perfReg.toNat, generalReg_lt h⟩
  else if perfReg = perfRegLr then .general (Fin.last 30)
  else if perfReg = perfRegPc then .pc
  else .none

theorem rdReadPerfReg_eq (regs : PtRegs) (perfReg : ℤ) (isSp : Bool) :
    rdReadPerfReg regs perfReg isSp = (perfRegSource perfReg isSp).value regs := by
  unfold rdReadPerfReg perfRegSource
  split_ifs
  all_goals rfl

def tracedIndexTerm (dec : Decode) (raw : U64) : U64 × List EvalOp :=
  if dec.extend = ExtendKind.none then (if dec.indexIs32 then lowWord raw else raw, [])
  else if dec.extend = ExtendKind.lsl then
    ((if dec.indexIs32 then lowWord raw else raw) <<< dec.shift.toNat, [.shift dec.shift.toNat])
  else if dec.extend = ExtendKind.uxtw then
    (lowWord raw <<< dec.shift.toNat, [.shift dec.shift.toNat])
  else if dec.extend = ExtendKind.sxtw then
    ((raw.setWidth 32).signExtend 64 <<< dec.shift.toNat, [.shift dec.shift.toNat])
  else if dec.extend = ExtendKind.uxtx then (raw <<< dec.shift.toNat, [.shift dec.shift.toNat])
  else if dec.extend = ExtendKind.sxtx then (raw <<< dec.shift.toNat, [.shift dec.shift.toNat])
  else (0, [])

def tracedEffectiveAddress (dec : Decode) (regs : PtRegs) : U64 × List EvalOp :=
  let baseSrc := perfRegSource dec.baseReg dec.baseIsSp
  let base := baseSrc.value regs
  let addr := if dec.hasImm then base + BitVec.ofInt 64 dec.imm else base
  if dec.hasIndex then
    let indexSrc := perfRegSource dec.indexReg false
    let raw := if dec.indexIsZero then 0 else indexSrc.value regs
    let reads := if dec.indexIsZero then [] else [EvalOp.read indexSrc]
    let index := tracedIndexTerm dec raw
    (addr + index.1, .read baseSrc :: (reads ++ index.2))
  else (addr, [.read baseSrc])

theorem tracedIndexTerm_fst (dec : Decode) (raw : U64) :
    (tracedIndexTerm dec raw).1 = indexTerm dec raw := by
  unfold tracedIndexTerm indexTerm
  split_ifs
  all_goals rfl

/-- The record does not change the address. -/
theorem tracedEffectiveAddress_fst (dec : Decode) (regs : PtRegs) :
    (tracedEffectiveAddress dec regs).1 = rdComputeEffectiveAddress dec regs := by
  unfold tracedEffectiveAddress rdComputeEffectiveAddress
  simp only [rdReadPerfReg_eq]
  by_cases hindex : dec.hasIndex = true
  · rw [if_pos hindex, if_pos hindex, ← tracedIndexTerm_fst]
  · rw [if_neg hindex, if_neg hindex]

/-! ## Registers -/

theorem perfRegSource_safe {perfReg : ℤ} (h : perfReg ≤ perfRegSp) (isSp : Bool) :
    (EvalOp.read (perfRegSource perfReg isSp)).Safe := by
  unfold perfRegSource
  split_ifs with h1 h2 h3 h4
  · trivial
  · trivial
  · trivial
  · rw [h4] at h
    exact absurd h (by decide)
  · trivial

theorem not_of_check {p : Prop} [Decidable p] {x : ℤ} (h : (if p then -einval else x) = 0) :
    ¬ p ∧ x = 0 := by
  split_ifs at h with hp
  · exact absurd h (by decide)
  · exact ⟨hp, h⟩

/-- What validation makes sure of. -/
theorem rdValidateTarget_eq_zero {target : Target} (h : rdValidateTarget target = 0) :
    target.decode.accessSize ∈ [1, 2, 4, 8] ∧ target.decode.baseReg ≤ perfRegSp ∧
    (target.decode.hasIndex = true → target.decode.indexIsZero = false →
      target.decode.indexReg ≤ perfRegLr) ∧
    target.decode.extend ≤ ExtendKind.sxtx := by
  obtain ⟨-, h⟩ := not_of_check h
  obtain ⟨hsize, h⟩ := not_of_check h
  obtain ⟨hbase, h⟩ := not_of_check h
  obtain ⟨hindex, h⟩ := not_of_check h
  obtain ⟨hext, -⟩ := not_of_check h
  refine ⟨?_, not_lt.mp (not_or.mp hbase).2, ?_, BitVec.not_lt.mp hext⟩
  · simp only [List.mem_cons, List.not_mem_nil, or_false]
    omega
  · intro hhas hzero
    by_contra hlt
    exact hindex ⟨hhas, by simp [hzero], .inr (not_le.mp hlt)⟩

/-! ## Shifts -/

/-- The six kinds are all there are below the checked limit. -/
theorem extend_cases {e : ExtendKind} (h : e ≤ ExtendKind.sxtx) :
    e = ExtendKind.none ∨ e = ExtendKind.lsl ∨ e = ExtendKind.uxtw ∨ e = ExtendKind.sxtw ∨
      e = ExtendKind.uxtx ∨ e = ExtendKind.sxtx := by
  unfold ExtendKind.none ExtendKind.lsl ExtendKind.uxtw ExtendKind.sxtw ExtendKind.uxtx
    ExtendKind.sxtx at *
  bv_omega

/-- The evaluator shifts by the count the target carries, unless it does not extend. -/
theorem tracedIndexTerm_snd {dec : Decode} (h : dec.extend ≤ ExtendKind.sxtx) (raw : U64) :
    (tracedIndexTerm dec raw).2 =
      if dec.extend = ExtendKind.none then [] else [.shift dec.shift.toNat] := by
  rcases extend_cases h with he | he | he | he | he | he
  all_goals
    simp only [tracedIndexTerm, he]
    rfl

/-- An accepted target is evaluated safely exactly when its shift count, if it is used, is below
the width. -/
theorem traced_safe_iff {target : Target} (h : rdValidateTarget target = 0) (regs : PtRegs) :
    (∀ op ∈ (tracedEffectiveAddress target.decode regs).2, op.Safe) ↔
      (target.decode.hasIndex = true → target.decode.extend ≠ ExtendKind.none →
        target.decode.shift.toNat < 64) := by
  obtain ⟨-, hbase, hindex, hext⟩ := rdValidateTarget_eq_zero h
  have hread := perfRegSource_safe hbase target.decode.baseIsSp
  unfold tracedEffectiveAddress
  by_cases hhas : target.decode.hasIndex = true
  · have hreads : ∀ op ∈ (if target.decode.indexIsZero then []
        else [EvalOp.read (perfRegSource target.decode.indexReg false)]), op.Safe := by
      intro op hop
      split_ifs at hop with hzero
      · cases hop
      · rw [List.mem_singleton.mp hop]
        have hlr := hindex hhas (by simpa using hzero)
        exact perfRegSource_safe (hlr.trans (by decide)) false
    rw [if_pos hhas]
    simp only [List.forall_mem_cons, List.forall_mem_append, hread, hhas, true_and, true_imp_iff,
      tracedIndexTerm_snd hext]
    constructor
    · rintro ⟨-, hshift⟩ hne
      rw [if_neg hne] at hshift
      exact hshift _ (List.mem_singleton_self _)
    · intro hshift
      refine ⟨hreads, ?_⟩
      intro op hop
      split_ifs at hop with hnone
      · cases hop
      · rw [List.mem_singleton.mp hop]
        exact hshift hnone
  · rw [if_neg hhas]
    simp [hhas, hread]

theorem rdLoadTargetsLocked_ok {s s' : Session} {targets : List Target} {memdupRet : ℤ}
    {allocOk : Bool} (h : rdLoadTargetsLocked s targets memdupRet allocOk = (0, s')) :
    s'.targets = targets ∧ ∀ t ∈ targets, rdValidateTarget t = 0 := by
  have hfail : ∀ {r : ℤ}, r ≠ 0 → (r, s) ≠ (0, s') := fun hr he => hr (congrArg Prod.fst he)
  unfold rdLoadTargetsLocked at h
  split_ifs at h with h1 h2 h3 h4 h5
  · exact absurd h (hfail (by decide))
  · exact absurd h (hfail (by decide))
  · exact absurd h (hfail h3)
  · exact absurd h (hfail (by decide))
  · exact absurd h (hfail (by decide))
  · cases h
    refine ⟨rfl, ?_⟩
    intro t ht
    by_contra hne
    exact h5 ⟨t, ht, hne⟩

/-- The session's targets are evaluated safely on every register file and lead to accesses of a
legal size. -/
def Session.TargetsSafe (s : Session) : Prop :=
  ∀ t ∈ s.targets, ∀ regs, (tracedEffectiveAddress t.decode regs).1 =
      rdComputeEffectiveAddress t.decode regs ∧
    (∀ op ∈ (tracedEffectiveAddress t.decode regs).2, op.Safe) ∧
    t.decode.accessSize ∈ [1, 2, 4, 8]

/-- An accepted batch is safe exactly when every shift count in it that the evaluator uses is
below 64: validation checks every other field. -/
theorem load_targets_safe_iff (s s' : Session) (targets : List Target) (memdupRet : ℤ)
    (allocOk : Bool) (h : rdLoadTargetsLocked s targets memdupRet allocOk = (0, s')) :
    s'.TargetsSafe ↔ ∀ t ∈ targets, t.decode.hasIndex = true →
      t.decode.extend ≠ ExtendKind.none → t.decode.shift.toNat < 64 := by
  obtain ⟨htargets, hvalid⟩ := rdLoadTargetsLocked_ok h
  unfold Session.TargetsSafe
  rw [htargets]
  constructor
  · intro hsafe t ht
    exact (traced_safe_iff (hvalid t ht) smallRegs).mp (hsafe t ht smallRegs).2.1
  · intro hshift t ht regs
    refine ⟨tracedEffectiveAddress_fst _ _, ?_, (rdValidateTarget_eq_zero (hvalid t ht)).1⟩
    exact (traced_safe_iff (hvalid t ht) regs).mpr (hshift t ht)

def configuredSession : Session := (rdWpctlOpen 1).run [.ioctl (.configSession (smallConfig 0))]

def shiftedTarget (n : U8) : Target :=
  { loadTarget with
      decode := { loadTarget.decode with
        hasIndex := true, indexReg := 1, extend := ExtendKind.lsl, shift := n } }

/-- The shifts 2 and 63 of an index register are safe; both targets read their index. -/
theorem load_targets_safe_iff_small :
    (rdLoadTargetsLocked configuredSession [shiftedTarget 2, shiftedTarget 63] 0 true).1 = 0 ∧
    (rdLoadTargetsLocked configuredSession [shiftedTarget 2, shiftedTarget 63] 0
      true).2.TargetsSafe ∧
    rdComputeEffectiveAddress (shiftedTarget 2).decode smallRegs = 0xA000 := by
  refine ⟨rfl, ?_, by decide⟩
  apply (load_targets_safe_iff configuredSession _ [shiftedTarget 2, shiftedTarget 63] 0 true
    rfl).mpr
  intro t ht _ _
  rw [List.mem_cons, List.mem_singleton] at ht
  rcases ht with rfl | rfl <;> decide

/-- `ldr w1, [x0, x1, lsl #64]`, which no assembler emits. -/
def wideShiftTarget : Target := shiftedTarget 64

theorem wideShift_accepted :
    (rdLoadTargetsLocked configuredSession [wideShiftTarget] 0 true).1 = 0 ∧
    ¬ (rdLoadTargetsLocked configuredSession [wideShiftTarget] 0 true).2.TargetsSafe := by
  refine ⟨rfl, ?_⟩
  intro hsafe
  obtain ⟨-, hops, -⟩ := hsafe wideShiftTarget List.mem_cons_self smallRegs
  have hshift := hops (.shift 64) (by decide)
  exact lt_irrefl 64 hshift

end RdSpeTool
