import RdSpeTool.Uapi

/-!
# Per-thread state of the kernel module

`Thread` is `rd_thread_ctx` without its list nodes, lock and reference count, and `SessionCtl` is
everything a handler reads through `thread->session`. The slot arrays of the source, all of length
`wp_capacity`, are one list of records. `Cell` holds the part of a slot that the measurement itself
uses, `Slot` adds what call-context capture stores beside it.

The environment of a hit is explicit: the register file, the `mem_access` reading, the user memory
seen by no-fault copies, and the return codes of `modify_user_hw_breakpoint`.
-/

namespace RdSpeTool

structure PtRegs where
  regs : Fin 31 → U64
  sp : U64
  pc : U64
  pstate : U64

/-- `user_mode`: exception level bits of `pstate` are EL0t. -/
def PtRegs.userMode (r : PtRegs) : Bool := r.pstate &&& 0xf#64 == 0

/-- User memory as the no-fault copies see it; `byte a = none` makes a copy of `a` fail. -/
structure UserMem where
  byte : U64 → Option U8
  accessOk : U64 → ℕ → Bool

/-- `copy_from_user_nofault`: all `len` bytes or a failure. -/
def UserMem.copy (u : UserMem) (addr : U64) (len : ℕ) : Option (List U8) :=
  (List.range len).mapM fun k => u.byte (addr + BitVec.ofNat 64 k)

def leWord (bytes : List U8) : U64 :=
  BitVec.ofNat 64 ((bytes.take 8).foldr (fun b acc => b.toNat + 256 * acc) 0)

/-- What one hit takes from outside the module. `memAccess = none` is a failed counter read. -/
structure HitEnv where
  memAccess : Option U64
  user : UserMem
  modRet : ℤ
  idleRet : ℤ

inductive WpState
  | idle
  | armed
  deriving DecidableEq

structure PerfEvent where
  bpAddr : U64
  bpLen : ℕ
  enabled : Bool
  deriving DecidableEq

structure Cell where
  state : WpState
  idleAddr : U64
  seedVa : U64
  seedAccess : U64
  seedPcOffset : U64
  accessSize : ℕ
  targetIndex : ℕ
  generation : U32
  skipFirstHit : Bool
  samples : U64
  wpEvent : PerfEvent
  deriving DecidableEq

structure Slot extends Cell where
  seedContextId : ℕ
  seedSnapshot : Option DwarfSnapshot
  reuseSnapshot : Option DwarfSnapshot
  deriving DecidableEq

structure PairHistEntry where
  used : Bool
  seedContextId : ℕ
  reuseContextId : ℕ
  seedPcOffset : U64
  reusePc : U64
  buckets : List ℕ
  deriving DecidableEq

def PairHistEntry.zero : PairHistEntry := ⟨false, 0, 0, 0, 0, List.replicate log2Buckets 0⟩

structure ContextEntry where
  used : Bool
  ips : List U64
  deriving DecidableEq

def ContextEntry.zero : ContextEntry := ⟨false, []⟩

structure Thread where
  tid : ℤ
  cpu : ℤ
  active : Bool
  liveDetached : Bool
  scratchBase : U64
  scratchStride : U64
  memEvent : Option Bool
  bpEvents : List PerfEvent
  slots : List Slot
  log2Hist : List ℕ
  pairHist : List PairHistEntry
  contexts : List ContextEntry
  dwarfEvents : Option (List DwarfEvent)
  candidateSamples : ℕ
  reservoirSeen : ℕ
  reservoirAccepted : ℕ
  reservoirRejected : ℕ
  hits : ℕ
  evictions : ℕ
  dropped : ℕ
  pairHistUsed : ℕ
  pairHistDropped : ℕ
  contextUsed : ℕ
  contextDropped : ℕ
  callchainFailed : ℕ
  callchainTruncated : ℕ
  dwarfEventUsed : ℕ
  dwarfEventDropped : ℕ
  dwarfStackCopyFailed : ℕ
  rng : U64

structure SessionCtl where
  ownerTgid : ℤ
  running : Bool
  configured : Bool
  targetsLoaded : Bool
  wpCapacity : ℕ
  callchainMode : CallchainMode
  dwarfStackBytes : ℕ
  dwarfEventCapacity : ℕ
  bpSamplePeriod : ℕ
  targets : List Target

abbrev SessionCtl.targetCount (c : SessionCtl) : ℕ := c.targets.length

namespace Thread

variable (th : Thread)

/-- Rewrites one slot; an index outside the arrays changes nothing. -/
def updateSlot (i : ℕ) (f : Slot → Slot) : Thread := { th with slots := th.slots.modify i f }

def addCandidate : Thread := { th with candidateSamples := th.candidateSamples + 1 }
def addSeen : Thread := { th with reservoirSeen := th.reservoirSeen + 1 }
def addAccepted : Thread := { th with reservoirAccepted := th.reservoirAccepted + 1 }
def addRejected : Thread := { th with reservoirRejected := th.reservoirRejected + 1 }
def addHit : Thread := { th with hits := th.hits + 1 }
def addEviction : Thread := { th with evictions := th.evictions + 1 }
def addDropped : Thread := { th with dropped := th.dropped + 1 }

def armedSlots : ℕ := th.slots.countP (fun s => s.state == .armed)

end Thread
end RdSpeTool
