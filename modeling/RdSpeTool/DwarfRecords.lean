import RdSpeTool.ByteRecords
import RdSpeTool.ResultFiles

/-!
# Raw DWARF events on their way to the resolver

`write_thread_dwarf_events` fetches the events of one context and writes the reply structs as they
lie in memory; `resolve_dwarf_pairs.py` cuts the file into records of the same layout. The bytes of
`stack` behind `stack_size` are whatever the kernel buffer held there.
-/

namespace RdSpeTool

open ByteRecords

/-! ## The struct layout -/

/-- What lies behind the copied bytes of the two stack arrays of an event. -/
structure Slack where
  seed : ℕ → U8
  reuse : ℕ → U8

/-- The fields of `rd_wpctl_dwarf_snapshot` in memory order. -/
def DwarfSnapshot.fields (slack : ℕ → U8) (s : DwarfSnapshot) : List (List U8) :=
  [s.regs.flatMap fun r => leBytes 8 r.toNat, leBytes 8 s.sp.toNat, leBytes 8 s.pc.toNat,
    leBytes 8 s.pstate.toNat, leBytes 8 s.stackBase.toNat, leBytes 4 s.stack.length, leBytes 4 0,
    s.stack ++ (List.range (maxDwarfStackBytes - s.stack.length)).map slack]

def DwarfSnapshot.bytes (slack : ℕ → U8) (s : DwarfSnapshot) : List U8 := (s.fields slack).flatten

def int32Bits (v : ℤ) : ℕ := (v % 2 ^ 32).toNat

/-- The fields of `rd_wpctl_dwarf_event_req` in memory order. -/
def DwarfEvent.fields (slack : Slack) (e : DwarfEvent) : List (List U8) :=
  [leBytes 4 e.threadIndex, leBytes 4 e.eventIndex, leBytes 1 e.used.toNat, leBytes 1 e.bucket,
    List.replicate 6 0, leBytes 4 (int32Bits e.tid), leBytes 4 e.targetIndex,
    leBytes 8 e.seedPcOffset.toNat, leBytes 8 e.seedPc.toNat, leBytes 8 e.reusePc.toNat,
    leBytes 8 e.seedAccess.toNat, leBytes 8 e.hitAccess.toNat, leBytes 8 e.delta.toNat,
    e.seed.bytes slack.seed, e.reuse.bytes slack.reuse]

def DwarfEvent.bytes (slack : Slack) (e : DwarfEvent) : List U8 := (e.fields slack).flatten

/-! ## The writer -/

structure DwarfRow where
  eventIndex : ℕ
  tid : ℤ
  targetIndex : ℕ
  seedPcOffset : U64
  seedPc : U64
  reusePc : U64
  lo : ℕ
  hi : ℕ
  delta : U64
  seedSp : U64
  reuseSp : U64
  seedStackSize : ℕ
  reuseStackSize : ℕ

structure DwarfFiles where
  bin : List U8
  txt : List DwarfRow

/-- What the event writer meets. -/
structure DwarfWriteEnv where
  openBin : Bool
  openTxt : Bool
  get : ℕ → UserCopy
  allocOk : ℕ → Bool
  writeOk : ℕ → Bool
  slack : ℕ → Slack

structure DwarfWriteEnv.AllOk (env : DwarfWriteEnv) : Prop where
  openBin : env.openBin = true
  openTxt : env.openTxt = true
  get : ∀ n, (env.get n).fromUser = true ∧ (env.get n).toUser = true
  allocOk : ∀ n, env.allocOk n = true
  writeOk : ∀ n, env.writeOk n = true

inductive DwarfWriteError
  | openBin (tid : ℤ)
  | openTxt (tid : ℤ)
  | dwarfEvent (ret : ℤ)
  | writeBin (tid : ℤ)

def DwarfWriteError.what (name : String) (strerror : ℤ → String) : DwarfWriteError → String
  | openBin tid => "cannot open " ++ name ++ ".rd2.t" ++ toString tid ++ ".dwarf.raw.bin"
  | openTxt tid => "cannot open " ++ name ++ ".rd2.t" ++ toString tid ++ ".dwarf.raw.txt"
  | dwarfEvent ret => "RDKIOC_GET_DWARF_EVENT failed: " ++ strerror ret
  | writeBin tid => "write failed for " ++ name ++ ".rd2.t" ++ toString tid ++ ".dwarf.raw.bin"

def dwarfRow (e : DwarfEvent) : DwarfRow :=
  ⟨e.eventIndex, e.tid, e.targetIndex, e.seedPcOffset, e.seedPc, e.reusePc, bucketLo e.bucket,
    bucketHi e.bucket, e.delta, e.seed.sp, e.reuse.sp, e.seed.stack.length, e.reuse.stack.length⟩

def writeDwarfEvent (s : Session) (env : DwarfWriteEnv) (tid : ℤ) (threadIndex : ℕ)
    (files : DwarfFiles) (n : ℕ) : Except DwarfWriteError DwarfFiles :=
  match rdGetDwarfEventLocked s (env.get n) (env.allocOk n) threadIndex n with
  | .error ret => .error (.dwarfEvent ret)
  | .ok req =>
      if req.used = false then .ok files
      else if env.writeOk n = false then .error (.writeBin tid)
      else .ok ⟨files.bin ++ req.bytes (env.slack n), files.txt ++ [dwarfRow req]⟩

def writeThreadDwarfEvents (s : Session) (env : DwarfWriteEnv) (stats : ThreadStats)
    (threadIndex : ℕ) : Except DwarfWriteError DwarfFiles :=
  if env.openBin = false then .error (.openBin stats.tid)
  else if env.openTxt = false then .error (.openTxt stats.tid)
  else
    (List.range stats.dwarfEventUsed).foldlM (writeDwarfEvent s env stats.tid threadIndex) ⟨[], []⟩

/-! ## The reader -/

namespace Resolver

/-- `Snapshot` of `resolve_dwarf_pairs.py`. -/
structure Snapshot where
  regs : List ℕ
  sp : ℕ
  pc : ℕ
  pstate : ℕ
  stackBase : ℕ
  stackSize : ℕ
  stack : List U8

/-- `DwarfEvent` of `resolve_dwarf_pairs.py`. -/
structure Event where
  threadIndex : ℕ
  eventIndex : ℕ
  used : ℕ
  bucket : ℕ
  tid : ℤ
  targetIndex : ℕ
  seedPcOffset : ℕ
  seedPc : ℕ
  reusePc : ℕ
  seedAccess : ℕ
  hitAccess : ℕ
  delta : ℕ
  seed : Snapshot
  reuse : Snapshot

def snapshotSizes : List ℕ := [31 * 8, 8, 8, 8, 8, 4, 4, maxDwarfStackBytes]

def eventSizes : List ℕ :=
  [4, 4, 1, 1, 6, 4, 4, 8, 8, 8, 8, 8, 8, snapshotSizes.sum, snapshotSizes.sum]

def eventSize : ℕ := eventSizes.sum

def snapshotFromFields (fields : List (List U8)) : Snapshot where
  regs := (records 8 (fields.getD 0 [])).map leValue
  sp := leValue (fields.getD 1 [])
  pc := leValue (fields.getD 2 [])
  pstate := leValue (fields.getD 3 [])
  stackBase := leValue (fields.getD 4 [])
  stackSize := leValue (fields.getD 5 [])
  stack := fields.getD 7 []

def snapshotFromBuffer (data : List U8) : Snapshot :=
  snapshotFromFields (splitFields snapshotSizes data)

def toInt32 (v : ℕ) : ℤ := if v < 2 ^ 31 then v else (v : ℤ) - 2 ^ 32

def eventFromFields (fields : List (List U8)) : Event where
  threadIndex := leValue (fields.getD 0 [])
  eventIndex := leValue (fields.getD 1 [])
  used := leValue (fields.getD 2 [])
  bucket := leValue (fields.getD 3 [])
  tid := toInt32 (leValue (fields.getD 5 []))
  targetIndex := leValue (fields.getD 6 [])
  seedPcOffset := leValue (fields.getD 7 [])
  seedPc := leValue (fields.getD 8 [])
  reusePc := leValue (fields.getD 9 [])
  seedAccess := leValue (fields.getD 10 [])
  hitAccess := leValue (fields.getD 11 [])
  delta := leValue (fields.getD 12 [])
  seed := snapshotFromBuffer (fields.getD 13 [])
  reuse := snapshotFromBuffer (fields.getD 14 [])

def fromBufferCopy (data : List U8) : Event := eventFromFields (splitFields eventSizes data)

/-- The text of the `ValueError` for a file that is not made of whole records. -/
def sizeError (path : String) (size : ℕ) : String :=
  path ++ " size " ++ toString size ++ " is not divisible by event size " ++ toString eventSize

def loadEvents (files : List (String × List U8)) : Except String (List Event) :=
  files.foldlM (fun events file =>
    if file.2.length % eventSize ≠ 0 then .error (sizeError file.1 file.2.length)
    else .ok (events ++ ((records eventSize file.2).map fromBufferCopy).filter (·.used ≠ 0))) []

def readWord (snap : Snapshot) (addr : ℤ) : Option ℕ :=
  if addr < snap.stackBase ∨ addr + 8 > snap.stackBase + snap.stackSize then none
  else some (leValue ((snap.stack.drop (addr - snap.stackBase).toNat).take 8))

end Resolver

/-! ## Round trip -/

structure DwarfSnapshot.InRange (s : DwarfSnapshot) : Prop where
  regs : s.regs.length = 31
  stack : s.stack.length ≤ maxDwarfStackBytes

structure DwarfEvent.InRange (e : DwarfEvent) : Prop where
  threadIndex : e.threadIndex < 2 ^ 32
  eventIndex : e.eventIndex < 2 ^ 32
  bucket : e.bucket < 2 ^ 8
  tid : -2 ^ 31 ≤ e.tid ∧ e.tid < 2 ^ 31
  targetIndex : e.targetIndex < 2 ^ 32
  seed : e.seed.InRange
  reuse : e.reuse.InRange

def DwarfSnapshot.offline (slack : ℕ → U8) (s : DwarfSnapshot) : Resolver.Snapshot where
  regs := s.regs.map BitVec.toNat
  sp := s.sp.toNat
  pc := s.pc.toNat
  pstate := s.pstate.toNat
  stackBase := s.stackBase.toNat
  stackSize := s.stack.length
  stack := s.stack ++ (List.range (maxDwarfStackBytes - s.stack.length)).map slack

def DwarfEvent.offline (slack : Slack) (e : DwarfEvent) : Resolver.Event where
  threadIndex := e.threadIndex
  eventIndex := e.eventIndex
  used := e.used.toNat
  bucket := e.bucket
  tid := e.tid
  targetIndex := e.targetIndex
  seedPcOffset := e.seedPcOffset.toNat
  seedPc := e.seedPc.toNat
  reusePc := e.reusePc.toNat
  seedAccess := e.seedAccess.toNat
  hitAccess := e.hitAccess.toNat
  delta := e.delta.toNat
  seed := e.seed.offline slack.seed
  reuse := e.reuse.offline slack.reuse

theorem leValue_u64 (v : U64) : leValue (leBytes 8 v.toNat) = v.toNat :=
  leValue_leBytes v.isLt

theorem leValue_u32 {v : ℕ} (h : v < 2 ^ 32) : leValue (leBytes 4 v) = v := leValue_leBytes h

theorem leValue_u8 {v : ℕ} (h : v < 2 ^ 8) : leValue (leBytes 1 v) = v := leValue_leBytes h

theorem records_regs (regs : List U64) :
    (records 8 (regs.flatMap fun r => leBytes 8 r.toNat)).map leValue = regs.map BitVec.toNat := by
  rw [records_flatMap (fun r _ => length_leBytes 8 r.toNat) (by omega), List.map_map]
  exact List.map_congr_left fun r _ => leValue_u64 r

theorem toInt32_int32Bits {v : ℤ} (h : -2 ^ 31 ≤ v ∧ v < 2 ^ 31) :
    Resolver.toInt32 (int32Bits v) = v := by
  unfold Resolver.toInt32 int32Bits
  split_ifs <;> omega

theorem int32Bits_lt (v : ℤ) : int32Bits v < 2 ^ 32 := by
  unfold int32Bits
  omega

namespace DwarfSnapshot

variable {s : DwarfSnapshot}

theorem InRange.length_fields (h : s.InRange) (slack : ℕ → U8) :
    (s.fields slack).map List.length = Resolver.snapshotSizes := by
  have hregs : (s.regs.flatMap fun r => leBytes 8 r.toNat).length = 31 * 8 := by
    rw [length_flatMap (fun r _ => length_leBytes 8 r.toNat), h.regs]
  have hstack := h.stack
  simp only [fields, Resolver.snapshotSizes, List.map_cons, List.map_nil, hregs, length_leBytes,
    List.length_append, List.length_map, List.length_range]
  rw [Nat.add_sub_cancel' hstack]

theorem InRange.length_bytes (h : s.InRange) (slack : ℕ → U8) :
    (s.bytes slack).length = Resolver.snapshotSizes.sum := by
  rw [bytes, List.length_flatten, h.length_fields]

theorem InRange.snapshotFromBuffer_bytes (h : s.InRange) (slack : ℕ → U8) :
    Resolver.snapshotFromBuffer (s.bytes slack) = s.offline slack := by
  have hsize : s.stack.length < 2 ^ 32 := h.stack.trans_lt (by decide)
  unfold Resolver.snapshotFromBuffer bytes
  rw [← h.length_fields slack, splitFields_flatten]
  simp only [Resolver.snapshotFromFields, fields, List.getD_cons_zero, List.getD_cons_succ,
    records_regs, leValue_u64, leValue_u32 hsize, offline]

end DwarfSnapshot

namespace DwarfEvent

variable {e : DwarfEvent}

theorem InRange.length_fields (h : e.InRange) (slack : Slack) :
    (e.fields slack).map List.length = Resolver.eventSizes := by
  simp only [fields, Resolver.eventSizes, List.map_cons, List.map_nil, length_leBytes,
    List.length_replicate, h.seed.length_bytes, h.reuse.length_bytes]

theorem InRange.length_bytes (h : e.InRange) (slack : Slack) :
    (e.bytes slack).length = Resolver.eventSize := by
  rw [bytes, List.length_flatten, h.length_fields, Resolver.eventSize]

theorem InRange.fromBufferCopy_bytes (h : e.InRange) (slack : Slack) :
    Resolver.fromBufferCopy (e.bytes slack) = e.offline slack := by
  have hused : e.used.toNat < 2 ^ 8 := by cases e.used <;> decide
  unfold Resolver.fromBufferCopy bytes
  rw [← h.length_fields slack, splitFields_flatten]
  simp only [Resolver.eventFromFields, fields, List.getD_cons_zero, List.getD_cons_succ,
    leValue_u64, leValue_u32 h.threadIndex, leValue_u32 h.eventIndex, leValue_u8 hused,
    leValue_u8 h.bucket, leValue_u32 (int32Bits_lt e.tid), leValue_u32 h.targetIndex,
    toInt32_int32Bits h.tid, h.seed.snapshotFromBuffer_bytes, h.reuse.snapshotFromBuffer_bytes,
    offline]

end DwarfEvent

namespace Resolver

def eventFile (events : List (DwarfEvent × Slack)) : List U8 :=
  events.flatMap fun e => e.1.bytes e.2

theorem records_eventFile {events : List (DwarfEvent × Slack)} (h : ∀ e ∈ events, e.1.InRange) :
    (records eventSize (eventFile events)).map fromBufferCopy =
      events.map fun e => e.1.offline e.2 := by
  have hlen : ∀ e ∈ events, (e.1.bytes e.2).length = eventSize :=
    fun e he => (h e he).length_bytes e.2
  rw [eventFile, records_flatMap hlen (by decide), List.map_map]
  exact List.map_congr_left fun e he => (h e he).fromBufferCopy_bytes e.2

/-- The reader returns the used ones among the written events, file by file and in order. -/
theorem loadEvents_eventFile {files : List (String × List (DwarfEvent × Slack))}
    (h : ∀ file ∈ files, ∀ e ∈ file.2, e.1.InRange) :
    loadEvents (files.map fun file => (file.1, eventFile file.2)) =
      .ok (((files.flatMap Prod.snd).map fun e => e.1.offline e.2).filter (·.used ≠ 0)) := by
  induction files using List.reverseRecOn with
  | nil => rfl
  | append_singleton files file ih =>
      have hlast : ∀ e ∈ file.2, e.1.InRange := h file (by simp)
      have hwhole : (eventFile file.2).length % eventSize = 0 := by
        rw [eventFile, length_flatMap fun e he => (hlast e he).length_bytes e.2]
        exact Nat.mul_mod_left _ _
      have hbefore := ih fun f hf => h f (List.mem_append_left _ hf)
      unfold loadEvents at hbefore ⊢
      rw [List.map_append, List.foldlM_append, hbefore]
      simp only [List.map_cons, List.map_nil, List.foldlM_cons, List.foldlM_nil, bind_pure]
      change (if (eventFile file.2).length % eventSize ≠ 0 then _ else _) = _
      rw [if_neg (not_not.mpr hwhole), records_eventFile hlast]
      simp only [List.flatMap_append, List.map_append, List.filter_append, List.flatMap_cons,
        List.flatMap_nil, List.append_nil]

end Resolver

end RdSpeTool
