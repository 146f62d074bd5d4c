import RdSpeTool.Evaluator
import RdSpeTool.ProbeTable

/-!
# Call-context capture and the result tables

The frame-pointer walk, the stack snapshot of DWARF mode, and the three bounded tables a hit
writes to: call contexts, use-reuse pair histograms, and raw DWARF events.
-/

namespace RdSpeTool

open ProbeTable

/-- The frame loop of `rd_capture_callchain`: the chain so far, and whether it was cut off. The
frame pointer strictly increases, which bounds the loop even when no address is added. -/
def walkFrames (u : UserMem) (ips : List U64) (fp : U64) : List U64 × Bool :=
  if ips.length < maxCallchainDepth then
    if fp = 0 then (ips, false)
    else if fp &&& 0x7 ≠ 0 then (ips, false)
    else if u.accessOk fp 16 = false then (ips, false)
    else
      match u.copy fp 16 with
      | none => (ips, false)
      | some frame =>
          let prevFp := leWord frame
          let lr := leWord (frame.drop 8)
          if lr = 0 then (ips, false)
          else
            let ips' := if ips.getLast? = some lr then ips else ips ++ [lr]
            if prevFp = 0 then (ips', false)
            else if h : prevFp ≤ fp then (ips', false)
            else
              have : 2 ^ 64 - prevFp.toNat < 2 ^ 64 - fp.toNat := by
                have hlt : fp.toNat < prevFp.toNat := by simpa [BitVec.le_def] using h
                have := prevFp.isLt
                omega
              walkFrames u ips' prevFp
  else (ips, fp ≠ 0)
termination_by 2 ^ 64 - fp.toNat

def rdCaptureCallchain (th : Thread) (u : UserMem) (regs : Option PtRegs) : Thread × List U64 :=
  match regs with
  | none => ({ th with callchainFailed := th.callchainFailed + 1 }, [])
  | some r =>
      if r.userMode = false ∨ r.pc = 0 then
        ({ th with callchainFailed := th.callchainFailed + 1 }, [])
      else
        let walk := walkFrames u [r.pc] (r.regs ⟨29, by decide⟩)
        if walk.2 then
          ({ th with callchainTruncated := th.callchainTruncated + 1 }, walk.1)
        else (th, walk.1)

/-- The chunk loop of `rd_copy_user_stack_snapshot`; a failed chunk keeps the copied start. -/
def copyChunks (u : UserMem) (sp : U64) (want copied : ℕ) (stack : List U8) : List U8 :=
  if _h : copied < want then
    let chunk := min 256 (want - copied)
    let src := sp + BitVec.ofNat 64 copied
    if u.accessOk src chunk = false then stack
    else
      match u.copy src chunk with
      | none => stack
      | some bytes => copyChunks u sp want (copied + chunk) (stack ++ bytes)
  else stack
termination_by want - copied

def rdCopyUserStackSnapshot (c : SessionCtl) (th : Thread) (u : UserMem) (snap : DwarfSnapshot)
    (sp : U64) : Thread × DwarfSnapshot :=
  let want := min c.dwarfStackBytes maxDwarfStackBytes
  if want = 0 ∨ sp = 0 then (th, { snap with stackBase := sp, stack := [] })
  else
    let stack := copyChunks u sp want 0 []
    (if stack = [] then { th with dwarfStackCopyFailed := th.dwarfStackCopyFailed + 1 } else th,
      { snap with stackBase := sp, stack := stack })

def rdCaptureDwarfSnapshot (c : SessionCtl) (th : Thread) (u : UserMem) (regs : Option PtRegs) :
    Thread × DwarfSnapshot :=
  match regs with
  | none => (th, .zero)
  | some r =>
      if r.userMode = false then (th, .zero)
      else
        let snap : DwarfSnapshot :=
          { DwarfSnapshot.zero with regs := List.ofFn r.regs, sp := r.sp, pc := r.pc, pstate := r.pstate }
        rdCopyUserStackSnapshot c th u snap r.sp

/-- The index of the reserved event, if the mode is DWARF and the buffer has room. -/
def rdReserveDwarfEventLocked (c : SessionCtl) (th : Thread) : Thread × Option ℕ :=
  if c.callchainMode ≠ .dwarf ∨ th.dwarfEvents = none ∨ c.dwarfEventCapacity = 0 then (th, none)
  else if th.dwarfEventUsed ≥ c.dwarfEventCapacity then
    ({ th with dwarfEventDropped := th.dwarfEventDropped + 1 }, none)
  else ({ th with dwarfEventUsed := th.dwarfEventUsed + 1 }, some th.dwarfEventUsed)

def rdGetContextIdLocked (th : Thread) (key : List U64) : Thread × ℕ :=
  if key = [] then ({ th with contextDropped := th.contextDropped + 1 }, 0)
  else
    match probe ContextEntry.used (fun e => e.ips == key) th.contexts 0 none with
    | .found i => (th, i + 1)
    | .free i =>
        ({ th with
            contexts := th.contexts.modify i (fun _ => ⟨true, key⟩)
            contextUsed := th.contextUsed + 1 }, i + 1)
    | .full => ({ th with contextDropped := th.contextDropped + 1 }, 0)

/-- Identity of a use-reuse pair in the pair table. -/
structure PairKey where
  seedPcOffset : U64
  seedContextId : ℕ
  reusePc : U64
  reuseContextId : ℕ
  deriving DecidableEq

def PairHistEntry.key (e : PairHistEntry) : PairKey :=
  ⟨e.seedPcOffset, e.seedContextId, e.reusePc, e.reuseContextId⟩

def PairHistEntry.claim (k : PairKey) (bucket : ℕ) (e : PairHistEntry) : PairHistEntry where
  used := true
  seedContextId := k.seedContextId
  reuseContextId := k.reuseContextId
  seedPcOffset := k.seedPcOffset
  reusePc := k.reusePc
  buckets := e.buckets.set bucket 1

def PairHistEntry.bump (bucket : ℕ) (e : PairHistEntry) : PairHistEntry :=
  { e with buckets := e.buckets.modify bucket (· + 1) }

def rdAddPairHistLocked (th : Thread) (k : PairKey) (bucket : ℕ) : Thread :=
  if k.reusePc = 0 ∨ bucket ≥ log2Buckets then
    { th with pairHistDropped := th.pairHistDropped + 1 }
  else
    match probe PairHistEntry.used (fun e => e.key == k) th.pairHist 0 none with
    | .found i => { th with pairHist := th.pairHist.modify i (PairHistEntry.bump bucket) }
    | .free i =>
        { th with
            pairHist := th.pairHist.modify i (PairHistEntry.claim k bucket)
            pairHistUsed := th.pairHistUsed + 1 }
    | .full => { th with pairHistDropped := th.pairHistDropped + 1 }

end RdSpeTool
