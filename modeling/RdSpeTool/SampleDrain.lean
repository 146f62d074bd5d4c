import RdSpeTool.Thread

/-!
# Draining a sampler slot

`process_samples_locked` of the first-stage monitor: it walks the records between the tail and the
head of the data ring, decodes the SPE packets that an AUX record announces, and writes one sample
for each closed SPE record. The records of a call come as a list, the AUX area as a memory with its
size; hotspot bookkeeping of written samples is left out.
-/

namespace RdSpeTool

/-! ## SPE packets -/

def isArmSpeAddressPacket (header : U8) : Bool := header &&& 0xF8 == 0xB0
def isArmSpeCounterPacket (header : U8) : Bool := header &&& 0xF8 == 0x98
def isArmSpeEventsPacket (header : U8) : Bool := header &&& 0xCF == 0x42

def armSpeShortIndex (header : U8) : ℕ := (header &&& 0x07).toNat

def armSpePayloadSize (header : U8) : ℕ := 1 <<< ((header &&& 0x30) >>> 4).toNat

/-- The payload behind a header at `pos`, little-endian, at most 8 bytes. -/
def readSpePayload (mem : ℕ → U8) (pos payloadSize : ℕ) : U64 :=
  leWord ((List.range payloadSize).map fun k => mem (pos + 1 + k))

def armSpeAddrGetBytes06 (payload : U64) : U64 := payload &&& 0x00FFFFFFFFFFFFFF

/-- Instruction addresses get their top byte back, data addresses lose it. -/
def decodeArmSpeAddressPayload (index : ℕ) (payload : U64) : U64 :=
  if index = 0 ∨ index = 1 ∨ index = 4 then
    let ns := (payload >>> 63) &&& 0x1
    let el := (payload >>> 61) &&& 0x3
    if ns ≠ 0 ∧ (el = 1 ∨ el = 2) then armSpeAddrGetBytes06 payload ||| 0xFF00000000000000
    else armSpeAddrGetBytes06 payload
  else if index = 2 then armSpeAddrGetBytes06 payload
  else payload

/-! ## Samples -/

def pcValid : U64 := 1
def latTotalValid : U64 := 2
def latIssueValid : U64 := 4
def latXlatValid : U64 := 8
def eventsValid : U64 := 16
def latExecValid : U64 := 32
def dataVaValid : U64 := 64

/-- `spe_instruction_sample`, and the pending part of a slot that becomes one. -/
structure SpeSample where
  pc : U64
  dataVa : U64
  latTotal : U64
  latIssue : U64
  latXlat : U64
  eventBits : U64
  flags : U64
  deriving DecidableEq

def SpeSample.zero : SpeSample := ⟨0, 0, 0, 0, 0, 0, 0⟩

inductive Written
  | sample (time addr : U64)
  | spe (s : SpeSample)
  deriving DecidableEq

structure Kinfo where
  numSamples : ℕ
  sampleThrottles : ℕ
  deriving DecidableEq

/-- A sampler slot with the monitor state its drain works on. `numSamples` is the count of the
running call, `auxTail` the consumer position in the AUX area. -/
structure Sampler where
  pending : SpeSample
  written : List Written
  writtenSampleBytes : ℕ
  numSamples : ℕ
  speEmptyFlushCount : ℕ
  speEndPacketFlushCount : ℕ
  speTimePacketFlushCount : ℕ
  speUnknownPacketCount : ℕ
  kinfos : List Kinfo
  auxTail : U64

def Sampler.fresh : Sampler := ⟨.zero, [], 0, 0, 0, 0, 0, 0, [], 0⟩

inductive RingRecord
  | sample (time addr : U64)
  | throttle
  | unthrottle
  | itraceStart
  | aux (offset size flags : U64)
  | other (type : ℕ)

def auxFlagTruncated : U64 := 0x1
def auxFlagCollision : U64 := 0x8

/-- The AUX area as one call finds it; only the first `size` cells belong to it. -/
structure AuxArea where
  mem : ℕ → U8
  size : U64

def updateBack (f : Kinfo → Kinfo) (ks : List Kinfo) : List Kinfo := ks.modify (ks.length - 1) f

namespace Sampler

variable (s : Sampler)

def resetPendingSpeSample : Sampler := { s with pending := .zero }

def sampleOf (p : SpeSample) : SpeSample :=
  let latencyFlags := latTotalValid ||| latIssueValid ||| latXlatValid
  if p.flags &&& latencyFlags = latencyFlags ∧ p.latTotal ≥ p.latIssue + p.latXlat then
    { p with flags := p.flags ||| latExecValid }
  else p

def flushPendingSpeSampleLocked (fromEndPacket : Bool) : Sampler :=
  if s.pending.flags &&& pcValid = 0 then
    { s.resetPendingSpeSample with speEmptyFlushCount := s.speEmptyFlushCount + 1 }
  else
    { s.resetPendingSpeSample with
        written := s.written ++ [.spe (sampleOf s.pending)]
        writtenSampleBytes := s.writtenSampleBytes + 56
        numSamples := s.numSamples + 1
        speEndPacketFlushCount := s.speEndPacketFlushCount + if fromEndPacket then 1 else 0
        speTimePacketFlushCount := s.speTimePacketFlushCount + if fromEndPacket then 0 else 1 }

def decodePacket (mem : ℕ → U8) (pos : ℕ) : Sampler × ℕ :=
  let header := mem pos
  let p := s.pending
  if isArmSpeAddressPacket header then
    let index := armSpeShortIndex header
    let addr := decodeArmSpeAddressPayload index (readSpePayload mem pos 8)
    if index = 0 then ({ s with pending := { p with pc := addr, flags := p.flags ||| pcValid } }, 8)
    else if index = 2 then
      ({ s with pending := { p with dataVa := addr, flags := p.flags ||| dataVaValid } }, 8)
    else (s, 8)
  else if isArmSpeCounterPacket header then
    let index := armSpeShortIndex header
    let size := armSpePayloadSize header
    let value := readSpePayload mem pos size
    if index = 0 then
      ({ s with pending := { p with latTotal := value, flags := p.flags ||| latTotalValid } }, size)
    else if index = 1 then
      ({ s with pending := { p with latIssue := value, flags := p.flags ||| latIssueValid } }, size)
    else if index = 2 then
      ({ s with pending := { p with latXlat := value, flags := p.flags ||| latXlatValid } }, size)
    else (s, size)
  else if isArmSpeEventsPacket header then
    let size := armSpePayloadSize header
    ({ s with
        pending := { p with
          eventBits := readSpePayload mem pos size
          flags := p.flags ||| eventsValid } }, size)
  else if header = 0x00 then (s, 0)
  else if header = 0x01 then (s.flushPendingSpeSampleLocked true, 0)
  else if header = 0x71 then (s.flushPendingSpeSampleLocked false, 8)
  else
    ({ s with speUnknownPacketCount := s.speUnknownPacketCount + 1 },
      if header &&& 0x30 = 0x00 then 1
      else if header &&& 0x30 = 0x10 then 2
      else if header &&& 0x30 = 0x20 then 4
      else 8)

end Sampler

def decodeAux (area : AuxArea) (offset size : U64) (it : ℕ) (s : Sampler) : Sampler :=
  if it < size.toNat then
    let pos := ((offset + BitVec.ofNat 64 it) % area.size).toNat
    let r := s.decodePacket area.mem pos
    decodeAux area offset size (it + (1 + r.2)) r.1
  else s
termination_by size.toNat - it

namespace Sampler

variable (s : Sampler)

def addThrottle : Sampler :=
  { s with
      kinfos := updateBack (fun k => { k with sampleThrottles := k.sampleThrottles + 1 }) s.kinfos }

/-- A collision in an AUX record counts as a throttle. -/
def noteCollision (flags : U64) : Sampler :=
  if flags &&& auxFlagCollision ≠ 0 then s.addThrottle else s

def processRecord (area : AuxArea) : RingRecord → Sampler
  | .sample time addr =>
      { s with
          written := s.written ++ [.sample time addr]
          writtenSampleBytes := s.writtenSampleBytes + 16
          numSamples := s.numSamples + 1 }
  | .throttle => s.addThrottle
  | .unthrottle => s
  | .itraceStart => s
  | .aux offset size flags =>
      let s := s.noteCollision flags
      if flags ≠ auxFlagTruncated then
        let s := decodeAux area offset size 0 s
        { s with auxTail := s.auxTail + size }
      else s
  | .other _ => s

def start : Sampler := { s with kinfos := s.kinfos ++ [⟨0, 0⟩] }

/-- One call on the records up to the head of the data ring. Before the first window the records
are passed over. -/
def processSamplesLocked (area : AuxArea) (records : List RingRecord) : Sampler :=
  if s.kinfos = [] then s
  else if records = [] then s
  else
    let s := records.foldl (fun s r => s.processRecord area r) { s with numSamples := 0 }
    { s with
        kinfos := updateBack (fun k => { k with numSamples := k.numSamples + s.numSamples }) s.kinfos }

end Sampler

/-! ## What decoding leaves alone -/

theorem Sampler.decodePacket_frame (s : Sampler) (mem : ℕ → U8) (pos : ℕ) :
    (s.decodePacket mem pos).1.kinfos = s.kinfos ∧ (s.decodePacket mem pos).1.auxTail = s.auxTail := by
  have hflush : ∀ b, (s.flushPendingSpeSampleLocked b).kinfos = s.kinfos ∧
      (s.flushPendingSpeSampleLocked b).auxTail = s.auxTail := by
    intro b
    unfold flushPendingSpeSampleLocked
    split_ifs <;> exact ⟨rfl, rfl⟩
  unfold decodePacket
  dsimp only
  split_ifs
  all_goals first | exact hflush _ | exact ⟨rfl, rfl⟩

theorem decodeAux_frame (area : AuxArea) (offset size : U64) (it : ℕ) (s : Sampler) :
    (decodeAux area offset size it s).kinfos = s.kinfos ∧
      (decodeAux area offset size it s).auxTail = s.auxTail := by
  induction it, s using decodeAux.induct area offset size with
  | case1 it s hlt pos r ih =>
      rw [decodeAux, if_pos hlt]
      obtain ⟨hk, ha⟩ := s.decodePacket_frame area.mem pos
      exact ⟨ih.1.trans hk, ih.2.trans ha⟩
  | case2 it s hge =>
      rw [decodeAux, if_neg hge]
      exact ⟨rfl, rfl⟩

theorem length_updateBack (f : Kinfo → Kinfo) (ks : List Kinfo) :
    (updateBack f ks).length = ks.length := List.length_modify ..

theorem Sampler.processRecord_kinfos (s : Sampler) (area : AuxArea) (r : RingRecord) :
    (s.processRecord area r).kinfos.length = s.kinfos.length := by
  cases r with
  | sample time addr => rfl
  | throttle => exact length_updateBack ..
  | unthrottle => rfl
  | itraceStart => rfl
  | other type => rfl
  | aux offset size flags =>
      have hcollide : (s.noteCollision flags).kinfos.length = s.kinfos.length := by
        unfold noteCollision
        split_ifs
        · exact length_updateBack ..
        · rfl
      unfold processRecord
      dsimp only
      split_ifs
      · exact (congrArg List.length (decodeAux_frame ..).1).trans hcollide
      · exact hcollide

theorem Sampler.foldl_processRecord_kinfos (s : Sampler) (area : AuxArea)
    (records : List RingRecord) :
    (records.foldl (fun s r => s.processRecord area r) s).kinfos.length = s.kinfos.length := by
  induction records generalizing s with
  | nil => rfl
  | cons r records ih => exact (ih _).trans (s.processRecord_kinfos area r)

/-- Drains neither open nor close a window. -/
theorem Sampler.processSamplesLocked_kinfos (s : Sampler) (area : AuxArea)
    (records : List RingRecord) :
    (s.processSamplesLocked area records).kinfos.length = s.kinfos.length := by
  unfold processSamplesLocked
  split_ifs
  · rfl
  · rfl
  · exact (length_updateBack ..).trans (foldl_processRecord_kinfos ..)

end RdSpeTool
