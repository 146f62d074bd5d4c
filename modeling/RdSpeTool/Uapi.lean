import Mathlib.Data.Nat.Log
import Mathlib.Tactic

/-!
# The control interface between the targeted profiler and the kernel module

Data of `rd_wpctl_ioctl.h`. A null array pointer is the empty list, the unused tail of a
fixed array is dropped (a call chain is the list of its `depth` addresses, a stack snapshot the
list of its `stack_size` bytes), and event counters are natural numbers. Register values,
addresses and `mem_access` readings keep their width.
-/

namespace RdSpeTool

abbrev U8 := BitVec 8
abbrev U32 := BitVec 32
abbrev U64 := BitVec 64

def log2Buckets : ℕ := 64
def maxPairHists : ℕ := 4096
def maxCallchainDepth : ℕ := 8
def maxContexts : ℕ := 4096
def maxDwarfStackBytes : ℕ := 8192

def idleWpLen : ℕ := 8

def einval : ℤ := 22
def ebusy : ℤ := 16
def enoent : ℤ := 2
def eexist : ℤ := 17
def esrch : ℤ := 3
def eperm : ℤ := 1
def enomem : ℤ := 12
def efault : ℤ := 14

inductive CallchainMode
  | off
  | fp
  | dwarf
  deriving DecidableEq

def CallchainMode.ofCode : ℕ → Option CallchainMode
  | 0 => some .off
  | 1 => some .fp
  | 2 => some .dwarf
  | _ => none

/-- `rd_wpctl_extend_kind`, by its numeric code: `rd_validate_target` sees an arbitrary byte. -/
abbrev ExtendKind := U8

namespace ExtendKind
def none : ExtendKind := 0
def lsl : ExtendKind := 1
def uxtw : ExtendKind := 2
def sxtw : ExtendKind := 3
def uxtx : ExtendKind := 4
def sxtx : ExtendKind := 5
end ExtendKind

structure Decode where
  accessSize : ℕ
  baseReg : ℤ
  baseIsSp : Bool
  hasImm : Bool
  hasIndex : Bool
  indexIs32 : Bool
  indexIsZero : Bool
  extend : ExtendKind
  shift : U8
  indexReg : ℤ
  imm : ℤ
  deriving DecidableEq

structure Target where
  pcOffset : U64
  absPc : U64
  aggregatedSamples : U64
  decode : Decode
  deriving DecidableEq

/-- `CONFIG_SESSION` argument; the mode is still the caller's raw code. -/
structure SessionCfg where
  wpCapacity : ℕ
  callchainMode : ℕ
  bpSamplePeriod : ℕ
  dwarfStackBytes : ℕ
  dwarfEventCapacity : ℕ
  deriving DecidableEq

structure ThreadRegister where
  tid : ℤ
  cpu : ℤ
  scratchBase : U64
  scratchStride : U64
  deriving DecidableEq

structure DwarfSnapshot where
  regs : List U64
  sp : U64
  pc : U64
  pstate : U64
  stackBase : U64
  stack : List U8
  deriving DecidableEq

def DwarfSnapshot.zero : DwarfSnapshot := ⟨List.replicate 31 0, 0, 0, 0, 0, []⟩

structure DwarfEvent where
  threadIndex : ℕ
  eventIndex : ℕ
  used : Bool
  bucket : ℕ
  tid : ℤ
  targetIndex : ℕ
  seedPcOffset : U64
  seedPc : U64
  reusePc : U64
  seedAccess : U64
  hitAccess : U64
  delta : U64
  seed : DwarfSnapshot
  reuse : DwarfSnapshot
  deriving DecidableEq

def DwarfEvent.zero : DwarfEvent :=
  ⟨0, 0, false, 0, 0, 0, 0, 0, 0, 0, 0, 0, .zero, .zero⟩

end RdSpeTool
