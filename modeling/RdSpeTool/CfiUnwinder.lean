import RdSpeTool.DwarfRecords

/-!
# The CFI unwinder

`CfiUnwinder` of `resolve_dwarf_pairs.py` over the decoded `.eh_frame` table of the main binary. A
call stack is described by the rules of the table themselves: each frame has a row for its call
site, and applying the row gives what is known of the caller's registers. The unwinder follows
such a stack until an address comes twice in a row.
-/

namespace RdSpeTool

namespace Resolver

/-! ## The code -/

/-- A register rule of a decoded row; `other` stands for the kinds `unwind` does not look at. -/
inductive CfiRule
  | offset (arg : ℤ)
  | sameValue
  | register (arg : ℕ)
  | other
  deriving DecidableEq

/-- One row of a decoded table; the register rules are the entries of a dict. -/
structure CfiRow where
  pc : ℕ
  cfaReg : Option ℕ
  cfaOffset : Option ℤ
  rules : List (ℕ × CfiRule)
  nodup : (rules.map Prod.fst).Nodup

structure Fde where
  start : ℤ
  stop : ℤ
  returnAddressRegister : ℕ
  table : List CfiRow

/-- `CfiUnwinder._find_row`: the row for an offset, if there is one, and the return register. -/
def findRow (fdes : List Fde) (pcOffset : ℤ) : Option CfiRow × ℕ :=
  match fdes.find? fun fde => fde.start ≤ pcOffset ∧ pcOffset < fde.stop with
  | some fde =>
      ((fde.table.takeWhile fun row => (row.pc : ℤ) ≤ pcOffset).getLast?, fde.returnAddressRegister)
  | none => (none, 30)

abbrev Regs := ℕ → Option ℤ

def snapshotRegs (snap : Snapshot) : Regs := fun reg =>
  if reg = 31 then some snap.sp
  else if reg < 31 then some (snap.regs.getD reg 0)
  else none

def applyRule (snap : Snapshot) (cfa : ℤ) (regs new : Regs) : ℕ × CfiRule → Regs
  | (reg, .offset arg) =>
      match readWord snap (cfa + arg) with
      | some value => Function.update new reg (some (value : ℤ))
      | none => new
  | (reg, .register arg) =>
      match regs arg with
      | some value => Function.update new reg (some value)
      | none => new
  | (_, .sameValue) => new
  | (_, .other) => new

def newRegs (snap : Snapshot) (cfa : ℤ) (regs : Regs) (row : CfiRow) : Regs :=
  row.rules.foldl (applyRule snap cfa regs) (Function.update regs 31 (some cfa))

def nextPc (snap : Snapshot) (cfa : ℤ) (regs : Regs) (row : CfiRow) (raReg : ℕ) : ℤ :=
  match row.rules.lookup raReg with
  | none => (regs raReg).getD 0
  | some (.offset arg) => ((readWord snap (cfa + arg)).map Nat.cast).getD 0
  | some (.register arg) => (regs arg).getD 0
  | some .sameValue => (regs raReg).getD 0
  | some .other => 0

/-- The offset a frame is looked up with; a return address lies behind its call. -/
def siteOffset (loadBias : ℤ) (depth : ℕ) (pc : ℤ) : ℤ :=
  if depth > 0 then pc - loadBias - 4 else pc - loadBias

def unwindFrame (fdes : List Fde) (loadBias : ℤ) (snap : Snapshot) (depth : ℕ) (regs : Regs)
    (pc : ℤ) : Option (Regs × ℤ) :=
  match findRow fdes (siteOffset loadBias depth pc) with
  | (none, _) => none
  | (some row, raReg) =>
      match row.cfaReg, row.cfaOffset with
      | some reg, some offset =>
          match regs reg with
          | none => none
          | some base =>
              let cfa := base + offset
              some (newRegs snap cfa regs row, nextPc snap cfa regs row raReg)
      | _, _ => none

/-- The frame loop, with the number of rounds left. -/
def unwindFrom (fdes : List Fde) (loadBias : ℤ) (snap : Snapshot) : ℕ → ℕ → Regs → ℤ → List ℤ
  | 0, _, _, _ => []
  | fuel + 1, depth, regs, pc =>
      if pc = 0 then []
      else
        pc ::
          match unwindFrame fdes loadBias snap depth regs pc with
          | none => []
          | some (regs', nextPc) =>
              if nextPc = pc then []
              else unwindFrom fdes loadBias snap fuel (depth + 1) regs' nextPc

def maxDepth : ℕ := 32

def unwind (fdes : List Fde) (loadBias : ℤ) (snap : Snapshot) : List ℤ :=
  unwindFrom fdes loadBias snap maxDepth 0 (snapshotRegs snap) snap.pc

/-! ## Call stacks -/

/-- What a row says about a register of the caller, as far as the snapshot and the known
registers determine it. The caller's stack pointer is the CFA. -/
def ruleValue (snap : Snapshot) (cfa : ℤ) (known : Regs) (row : CfiRow) (reg : ℕ) : Option ℤ :=
  match row.rules.lookup reg with
  | some (.offset arg) => (readWord snap (cfa + arg)).map Nat.cast
  | some (.register arg) => known arg
  | some .other => none
  | some .sameValue => if reg = 31 then some cfa else known reg
  | none => if reg = 31 then some cfa else known reg

/-- Where a row finds the return address: at a CFA offset or still in a register. -/
def returnAddress (snap : Snapshot) (cfa : ℤ) (known : Regs) (row : CfiRow) (raReg : ℕ) :
    Option ℤ :=
  match row.rules.lookup raReg with
  | some (.offset arg) => (readWord snap (cfa + arg)).map Nat.cast
  | some (.register arg) => known arg
  | some .other => none
  | some .sameValue => known raReg
  | none => known raReg

/-- A frame at `pc` with return address `ra`; `known` and `caller` are the registers known in it
and in its caller. -/
structure CallFrame (fdes : List Fde) (loadBias : ℤ) (snap : Snapshot) (depth : ℕ) (known : Regs)
    (pc ra : ℤ) (caller : Regs) : Prop where
  pc_ne : pc ≠ 0
  row : ∃ row raReg reg offset base,
    findRow fdes (siteOffset loadBias depth pc) = (some row, raReg) ∧
    row.cfaReg = some reg ∧ row.cfaOffset = some offset ∧ known reg = some base ∧
    returnAddress snap (base + offset) known row raReg = some ra ∧
    ∀ reg v, caller reg = some v → ruleValue snap (base + offset) known row reg = some v

/-- The frames from `pc` outwards with their addresses; the outermost one returns to zero. -/
inductive CallStack (fdes : List Fde) (loadBias : ℤ) (snap : Snapshot) :
    ℕ → Regs → ℤ → List ℤ → Prop
  | outermost {depth : ℕ} {known caller : Regs} {pc : ℤ}
      (h : CallFrame fdes loadBias snap depth known pc 0 caller) :
      CallStack fdes loadBias snap depth known pc [pc]
  | call {depth : ℕ} {known caller : Regs} {pc ra : ℤ} {pcs : List ℤ}
      (h : CallFrame fdes loadBias snap depth known pc ra caller)
      (hrest : CallStack fdes loadBias snap (depth + 1) caller ra pcs) :
      CallStack fdes loadBias snap depth known pc (pc :: pcs)

section Follow

variable {fdes : List Fde} {loadBias : ℤ} {snap : Snapshot} {known regs : Regs}

theorem CallStack.head {depth : ℕ} {pc : ℤ} {pcs : List ℤ}
    (h : CallStack fdes loadBias snap depth known pc pcs) : ∃ rest, pcs = pc :: rest := by
  cases h with
  | outermost _ => exact ⟨[], rfl⟩
  | call _ _ => exact ⟨_, rfl⟩

end Follow

end Resolver

end RdSpeTool
