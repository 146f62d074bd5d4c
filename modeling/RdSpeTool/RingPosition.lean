import Mathlib
import RdSpeTool.ByteRecords
import RdSpeTool.SampleDrain

/-!
# Records and packets at the end of a ring

`process_samples_locked` on bytes: the records of the data ring are read at positions reduced by
the size of the ring, the packets of an AUX record at positions reduced by the size of the AUX
area. Single fields and headers are reduced one by one; the `sample_id` of an AUX record and the
payload of a packet are copied as a whole from their first byte on.
-/

namespace RdSpeTool

open ByteRecords

/-! ## The data ring -/

/-- The data area as one call finds it; only the first `size` cells belong to it. -/
structure DataRing where
  mem : ℕ → U8
  size : ℕ

def span (p n : ℕ) : List ℕ := (List.range n).map (p + ·)

def DataRing.bytes (ring : DataRing) (p n : ℕ) : List U8 := (span p n).map ring.mem

def DataRing.word (ring : DataRing) (p : ℕ) : U64 := leWord (ring.bytes p 8)

/-- `header->type` and `header->size` of the record at a tail position. -/
def DataRing.typeAt (ring : DataRing) (tail : ℕ) : ℕ := leValue (ring.bytes (tail % ring.size) 4)
def DataRing.sizeAt (ring : DataRing) (tail : ℕ) : ℕ := leValue (ring.bytes (tail % ring.size + 6) 2)

def recordThrottle : ℕ := 5
def recordUnthrottle : ℕ := 6
def recordSample : ℕ := 9
def recordAux : ℕ := 11
def recordItraceStart : ℕ := 12

def DataRing.recordAt (ring : DataRing) (tail : ℕ) : RingRecord :=
  let type := ring.typeAt tail
  if type = recordSample then
    .sample (ring.word ((tail + 16) % ring.size)) (ring.word ((tail + 24) % ring.size))
  else if type = recordThrottle then .throttle
  else if type = recordUnthrottle then .unthrottle
  else if type = recordItraceStart then .itraceStart
  else if type = recordAux then
    .aux (ring.word ((tail + 8) % ring.size)) (ring.word ((tail + 16) % ring.size))
      (ring.word ((tail + 24) % ring.size))
  else .other type

/-- Cells of the data area that the round for one record reads; the last piece of an AUX record is
its `sample_id`. -/
def DataRing.recordReads (ring : DataRing) (tail : ℕ) : List ℕ :=
  span (tail % ring.size) 8 ++
    if ring.typeAt tail = recordSample then
      span ((tail + 16) % ring.size) 8 ++ span ((tail + 24) % ring.size) 8
    else if ring.typeAt tail = recordAux then
      span ((tail + 8) % ring.size) 8 ++ span ((tail + 16) % ring.size) 8 ++
        span ((tail + 24) % ring.size) 8 ++ span ((tail + 32) % ring.size) 32
    else []

/-- The record loop, for a given treatment of a record. A record of size zero keeps the loop where
it is for ever. -/
def drainRing (ring : DataRing) (process : Sampler → RingRecord → Sampler) (head tail : ℕ)
    (s : Sampler) : Option (Sampler × ℕ) :=
  if tail < head then
    if ring.sizeAt tail = 0 then none
    else drainRing ring process head (tail + ring.sizeAt tail) (process s (ring.recordAt tail))
  else some (s, tail)
termination_by head - tail

def recordStarts (ring : DataRing) (head tail : ℕ) : List ℕ :=
  if tail < head then
    if ring.sizeAt tail = 0 then [tail]
    else tail :: recordStarts ring head (tail + ring.sizeAt tail)
  else []
termination_by head - tail

/-- How a call ends: it returns, throws because the records overshoot the head, or loops. -/
inductive DrainOutcome
  | returns (s : Sampler)
  | throws (what : String) (s : Sampler)
  | loops

/-- Both mappings of a slot with the positions in the data ring, counted from the first byte. -/
structure Mapping where
  ring : DataRing
  area : AuxArea
  head : ℕ
  tail : ℕ

def drainCall (ring : DataRing) (process : Sampler → RingRecord → Sampler) (head tail : ℕ)
    (s : Sampler) : DrainOutcome :=
  if s.kinfos = [] then .returns s
  else if head = tail then .returns s
  else
    match drainRing ring process head tail { s with numSamples := 0 } with
    | none => .loops
    | some (s, tail) =>
        if head ≠ tail then .throws "corrupted samples mapping" s
        else .returns { s with
          kinfos := updateBack (fun k => { k with numSamples := k.numSamples + s.numSamples })
            s.kinfos }

def Mapping.process (m : Mapping) (s : Sampler) : DrainOutcome :=
  drainCall m.ring (fun s r => s.processRecord m.area r) m.head m.tail s

/-! ## Packets -/

/-- Payload bytes that a packet's round skips and payload bytes that it reads. -/
def payloadSkip (header : U8) : ℕ :=
  if isArmSpeAddressPacket header then 8
  else if isArmSpeCounterPacket header then armSpePayloadSize header
  else if isArmSpeEventsPacket header then armSpePayloadSize header
  else if header = 0x00 then 0
  else if header = 0x01 then 0
  else if header = 0x71 then 8
  else if header &&& 0x30 = 0x00 then 1
  else if header &&& 0x30 = 0x10 then 2
  else if header &&& 0x30 = 0x20 then 4
  else 8

def payloadReads (header : U8) : ℕ :=
  if isArmSpeAddressPacket header then 8
  else if isArmSpeCounterPacket header then armSpePayloadSize header
  else if isArmSpeEventsPacket header then armSpePayloadSize header
  else 0

def AuxArea.cell (area : AuxArea) (offset : U64) (it : ℕ) : ℕ :=
  ((offset + BitVec.ofNat 64 it) % area.size).toNat

def packetStarts (area : AuxArea) (offset size : U64) (it : ℕ) : List ℕ :=
  if it < size.toNat then
    it :: packetStarts area offset size
      (it + (1 + payloadSkip (area.mem (area.cell offset it))))
  else []
termination_by size.toNat - it

def AuxArea.packetReads (area : AuxArea) (offset : U64) (it : ℕ) : List ℕ :=
  span (area.cell offset it) (1 + payloadReads (area.mem (area.cell offset it)))

def AuxArea.recordReads (area : AuxArea) : RingRecord → List ℕ
  | .aux offset size flags =>
      if flags ≠ auxFlagTruncated then
        (packetStarts area offset size 0).flatMap (area.packetReads offset)
      else []
  | _ => []

/-! ## The same bytes without a wrap -/

/-- The bytes of an AUX record from cell 0 of a buffer that it does not fill. -/
def AuxArea.region (area : AuxArea) (offset : U64) : AuxArea where
  mem := fun i => area.mem (area.cell offset i)
  size := BitVec.allOnes 64

def Sampler.processRegion (area : AuxArea) (s : Sampler) : RingRecord → Sampler
  | .aux offset size flags => s.processRecord (area.region offset) (.aux 0 size flags)
  | r => s.processRecord area r

def Mapping.contiguousRing (m : Mapping) : DataRing where
  mem := fun i => m.ring.mem ((m.tail + i) % m.ring.size)
  size := m.head - m.tail + 64

def Mapping.processContiguous (m : Mapping) (s : Sampler) : DrainOutcome :=
  drainCall m.contiguousRing (Sampler.processRegion m.area) (m.head - m.tail) 0 s

/-- Records are aligned to 8 bytes, the data area is made of whole words, and the AUX area has a
size that `mmap` accepts, a power of two. -/
structure Mapping.Aligned (m : Mapping) : Prop where
  le_head : m.tail ≤ m.head
  ring_size : 0 < m.ring.size ∧ 8 ∣ m.ring.size
  aux_size : ∃ n, m.area.size.toNat = 2 ^ n
  tail : 8 ∣ m.tail
  sizes : ∀ t ∈ recordStarts m.ring m.head m.tail, 8 ∣ m.ring.sizeAt t

def Mapping.starts (m : Mapping) (s : Sampler) : List ℕ :=
  if s.kinfos = [] then [] else recordStarts m.ring m.head m.tail

/-- A call gives what it gives on the contiguous layout, and reads no cell outside its areas. -/
def Mapping.PositionIndependent (m : Mapping) (s : Sampler) : Prop :=
  m.process s = m.processContiguous s ∧
    (∀ t ∈ m.starts s, ∀ i ∈ m.ring.recordReads t, i < m.ring.size) ∧
    ∀ t ∈ m.starts s, ∀ i ∈ m.area.recordReads (m.ring.recordAt t), i < m.area.size.toNat

/-- No `sample_id` and no payload that is read lies on both sides of the end of its area. -/
def Mapping.NothingSplit (m : Mapping) (s : Sampler) : Prop :=
  ∀ t ∈ m.starts s, ∀ offset size flags, m.ring.recordAt t = .aux offset size flags →
    (t + 32) % m.ring.size + 32 ≤ m.ring.size ∧
    (flags ≠ auxFlagTruncated → ∀ it ∈ packetStarts m.area offset size 0,
      m.area.cell offset it + 1 + payloadReads (m.area.mem (m.area.cell offset it)) ≤
        m.area.size.toNat)

theorem mem_span {p n i : ℕ} : i ∈ span p n ↔ p ≤ i ∧ i < p + n := by
  unfold span
  rw [List.mem_map]
  constructor
  · rintro ⟨k, hk, rfl⟩
    rw [List.mem_range] at hk
    omega
  · rintro ⟨hp, hn⟩
    exact ⟨i - p, List.mem_range.mpr (by omega), by omega⟩

/-! ## Aligned words do not wrap -/

section Words

variable {x j size : ℕ}

theorem aligned_mod_add_le (hsize : 0 < size) (hdvd : 8 ∣ size) (hx : 8 ∣ x) :
    x % size + 8 ≤ size := by
  have hlt := Nat.mod_lt x hsize
  have hmod : 8 ∣ x % size := (Nat.dvd_mod_iff hdvd).mpr hx
  omega

theorem aligned_mod_add (hsize : 0 < size) (hdvd : 8 ∣ size) (hx : 8 ∣ x) (hj : j < 8) :
    (x + j) % size = x % size + j := by
  have hle := aligned_mod_add_le hsize hdvd hx
  rw [Nat.add_mod, Nat.mod_eq_of_lt (show j < size by omega), Nat.mod_eq_of_lt (by omega)]

end Words

section Ring

variable {m : Mapping}

/-- A piece of an aligned word is the same in both layouts. -/
theorem contiguous_bytes (hm : m.Aligned) {t k o n : ℕ} (ht : 8 ∣ t) (hlt : t < m.head - m.tail)
    (hk : 8 ∣ k) (hk24 : k ≤ 24) (ho : o + n ≤ 8) :
    m.ring.bytes ((m.tail + t + k) % m.ring.size + o) n =
      m.contiguousRing.bytes ((t + k) % m.contiguousRing.size + o) n := by
  have hsmall : (t + k) % m.contiguousRing.size = t + k := by
    apply Nat.mod_eq_of_lt
    change t + k < m.head - m.tail + 64
    omega
  have haligned : 8 ∣ m.tail + t + k := by
    have htail := hm.tail
    omega
  rw [hsmall]
  unfold DataRing.bytes span
  rw [List.map_map, List.map_map]
  apply List.map_congr_left
  intro i hi
  rw [List.mem_range] at hi
  change m.ring.mem ((m.tail + t + k) % m.ring.size + o + i) =
    m.ring.mem ((m.tail + (t + k + o + i)) % m.ring.size)
  rw [show m.tail + (t + k + o + i) = m.tail + t + k + (o + i) by omega,
    aligned_mod_add hm.ring_size.1 hm.ring_size.2 haligned (by omega), Nat.add_assoc]

theorem contiguous_sizeAt (hm : m.Aligned) {t : ℕ} (ht : 8 ∣ t) (hlt : t < m.head - m.tail) :
    m.ring.sizeAt (m.tail + t) = m.contiguousRing.sizeAt t :=
  congrArg leValue (contiguous_bytes (k := 0) (o := 6) (n := 2) hm ht hlt (dvd_zero 8)
    (Nat.zero_le _) (by omega))

theorem contiguous_recordAt (hm : m.Aligned) {t : ℕ} (ht : 8 ∣ t) (hlt : t < m.head - m.tail) :
    m.ring.recordAt (m.tail + t) = m.contiguousRing.recordAt t := by
  have htype : m.ring.typeAt (m.tail + t) = m.contiguousRing.typeAt t :=
    congrArg leValue (contiguous_bytes (k := 0) (o := 0) (n := 4) hm ht hlt (dvd_zero 8)
      (Nat.zero_le _) (by omega))
  have hword : ∀ k, 8 ∣ k → k ≤ 24 → m.ring.word ((m.tail + t + k) % m.ring.size) =
      m.contiguousRing.word ((t + k) % m.contiguousRing.size) := by
    intro k hk hk24
    exact congrArg leWord (contiguous_bytes (o := 0) (n := 8) hm ht hlt hk hk24 (by omega))
  unfold DataRing.recordAt
  dsimp only
  rw [htype, hword 8 (by decide) (by decide), hword 16 (by decide) (by decide),
    hword 24 (by decide) (by decide)]

/-- The record loop in both layouts, if each record is treated the same. -/
theorem drainRing_contiguous (hm : m.Aligned) {p p' : Sampler → RingRecord → Sampler} {t : ℕ}
    (ht : 8 ∣ t)
    (hsizes : ∀ u ∈ recordStarts m.ring m.head (m.tail + t), 8 ∣ m.ring.sizeAt u)
    (hp : ∀ u ∈ recordStarts m.ring m.head (m.tail + t), ∀ s,
      p s (m.ring.recordAt u) = p' s (m.ring.recordAt u)) (s : Sampler) :
    drainRing m.ring p m.head (m.tail + t) s =
      (drainRing m.contiguousRing p' (m.head - m.tail) t s).map fun r => (r.1, m.tail + r.2) := by
  induction hrest : m.head - (m.tail + t) using Nat.strongRecOn generalizing t s with
  | _ rest ih =>
      have hle := hm.le_head
      rw [drainRing.eq_def m.ring, drainRing.eq_def m.contiguousRing]
      by_cases hlt : m.tail + t < m.head
      · have hlt' : t < m.head - m.tail := by omega
        rw [if_pos hlt, if_pos hlt', ← contiguous_sizeAt hm ht hlt']
        rw [recordStarts, if_pos hlt] at hsizes hp
        by_cases hzero : m.ring.sizeAt (m.tail + t) = 0
        · rw [if_pos hzero, if_pos hzero]
          rfl
        · rw [if_neg hzero] at hsizes hp
          rw [if_neg hzero, if_neg hzero, ← contiguous_recordAt hm ht hlt', Nat.add_assoc]
          rw [Nat.add_assoc] at hsizes hp
          rw [List.forall_mem_cons] at hsizes hp
          rw [hp.1]
          refine ih _ ?_ (ht.add hsizes.1) hsizes.2 hp.2 _ rfl
          omega
      · have hlt' : ¬ t < m.head - m.tail := by omega
        rw [if_neg hlt, if_neg hlt']
        rfl

theorem drainCall_contiguous (hm : m.Aligned) {p p' : Sampler → RingRecord → Sampler} (s : Sampler)
    (hp : ∀ u ∈ m.starts s, ∀ s, p s (m.ring.recordAt u) = p' s (m.ring.recordAt u)) :
    drainCall m.ring p m.head m.tail s =
      drainCall m.contiguousRing p' (m.head - m.tail) 0 s := by
  have hle := hm.le_head
  unfold drainCall
  unfold Mapping.starts at hp
  by_cases hk : s.kinfos = []
  · rw [if_pos hk, if_pos hk]
  rw [if_neg hk] at hp
  rw [if_neg hk, if_neg hk]
  by_cases hempty : m.head = m.tail
  · rw [if_pos hempty, if_pos (by omega)]
  rw [if_neg hempty, if_neg (by omega)]
  have hloop := drainRing_contiguous (t := 0) hm (dvd_zero 8) hm.sizes hp { s with numSamples := 0 }
  rw [Nat.add_zero] at hloop
  rw [hloop]
  cases drainRing m.contiguousRing p' (m.head - m.tail) 0 { s with numSamples := 0 } with
  | none => rfl
  | some r =>
      obtain ⟨s', tail⟩ := r
      dsimp only [Option.map_some]
      by_cases hend : m.head ≠ m.tail + tail
      · rw [if_pos hend, if_pos (by omega)]
      · rw [if_neg hend, if_neg (by omega)]

/-- A loop that comes to an end has treated the records at its positions in order. -/
theorem drainRing_eq_foldl {ring : DataRing} {p : Sampler → RingRecord → Sampler} {head t t' : ℕ}
    {s s' : Sampler} (h : drainRing ring p head t s = some (s', t')) :
    s' = ((recordStarts ring head t).map ring.recordAt).foldl p s := by
  induction hrest : head - t using Nat.strongRecOn generalizing t s with
  | _ rest ih =>
      rw [drainRing] at h
      rw [recordStarts]
      split_ifs at h ⊢ with hlt hzero
      · rw [List.map_cons, List.foldl_cons]
        refine ih _ ?_ h rfl
        omega
      · exact (Prod.mk.inj (Option.some.inj h)).1.symm

/-- What a call on bytes returns is what the call on its records does. -/
theorem Mapping.process_returns (m : Mapping) {s s' : Sampler} (h : m.process s = .returns s') :
    s' = s.processSamplesLocked m.area ((m.starts s).map m.ring.recordAt) := by
  unfold Mapping.process drainCall at h
  unfold Mapping.starts Sampler.processSamplesLocked
  by_cases hk : s.kinfos = []
  · rw [if_pos hk] at h ⊢
    exact (DrainOutcome.returns.inj h).symm
  rw [if_neg hk] at h
  rw [if_neg hk, if_neg hk]
  by_cases hempty : m.head = m.tail
  · rw [if_pos hempty] at h
    have hnil : recordStarts m.ring m.head m.tail = [] := by
      rw [recordStarts, if_neg (by omega)]
    rw [hnil, if_pos List.map_nil]
    exact (DrainOutcome.returns.inj h).symm
  rw [if_neg hempty] at h
  cases hloop : drainRing m.ring (fun s r => s.processRecord m.area r) m.head m.tail
      { s with numSamples := 0 } with
  | none =>
      rw [hloop] at h
      cases h
  | some r =>
      obtain ⟨s₁, t⟩ := r
      rw [hloop] at h
      dsimp only at h
      have hfold := drainRing_eq_foldl hloop
      have hne : (recordStarts m.ring m.head m.tail).map m.ring.recordAt ≠ [] := by
        rw [drainRing] at hloop
        split_ifs at hloop with hlt hzero
        · rw [recordStarts, if_pos hlt, if_neg hzero]
          simp
        · rw [if_pos] at h
          · cases h
          · rw [← (Prod.mk.inj (Option.some.inj hloop)).2]
            exact hempty
      split_ifs at h
      rw [if_neg hne, ← hfold]
      exact (DrainOutcome.returns.inj h).symm

/-- All reads of a record lie in the data area, unless its `sample_id` is split. -/
theorem recordReads_lt_iff (hm : m.Aligned) {t : ℕ} (ht : 8 ∣ t) :
    (∀ i ∈ m.ring.recordReads t, i < m.ring.size) ↔
      (m.ring.typeAt t = recordAux → (t + 32) % m.ring.size + 32 ≤ m.ring.size) := by
  obtain ⟨hpos, hdvd⟩ := hm.ring_size
  have hword : ∀ k, 8 ∣ k → ∀ i ∈ span ((t + k) % m.ring.size) 8, i < m.ring.size := by
    intro k hk i hi
    have hle := aligned_mod_add_le hpos hdvd (ht.add hk)
    rw [mem_span] at hi
    omega
  have hhead := hword 0 (dvd_zero 8)
  rw [Nat.add_zero] at hhead
  have h8 := hword 8 (by decide)
  have h16 := hword 16 (by decide)
  have h24 := hword 24 (by decide)
  unfold DataRing.recordReads
  rw [List.forall_mem_append]
  by_cases hs : m.ring.typeAt t = recordSample
  · rw [if_pos hs, List.forall_mem_append]
    have hno : m.ring.typeAt t ≠ recordAux := by
      rw [hs]
      decide
    exact ⟨fun _ h => absurd h hno, fun _ => ⟨hhead, h16, h24⟩⟩
  · rw [if_neg hs]
    by_cases ha : m.ring.typeAt t = recordAux
    · rw [if_pos ha, List.forall_mem_append, List.forall_mem_append, List.forall_mem_append]
      constructor
      · rintro ⟨-, -, hid⟩ -
        have hlast := hid ((t + 32) % m.ring.size + 31) (mem_span.mpr (by omega))
        omega
      · intro hid
        refine ⟨hhead, ⟨⟨h8, h16⟩, h24⟩, ?_⟩
        intro i hi
        have hle := hid ha
        rw [mem_span] at hi
        omega
    · rw [if_neg ha]
      exact ⟨fun _ h => absurd h ha, fun _ => ⟨hhead, by simp⟩⟩

/-- Every record the loop comes to is aligned. -/
theorem recordStarts_aligned {ring : DataRing} {head t : ℕ} (ht : 8 ∣ t)
    (hsizes : ∀ u ∈ recordStarts ring head t, 8 ∣ ring.sizeAt u) :
    ∀ u ∈ recordStarts ring head t, 8 ∣ u := by
  induction hrest : head - t using Nat.strongRecOn generalizing t with
  | _ rest ih =>
      rw [recordStarts] at hsizes ⊢
      split_ifs at hsizes ⊢ with hlt hzero
      · intro u hu
        rw [List.mem_singleton.mp hu]
        exact ht
      · rw [List.forall_mem_cons] at hsizes ⊢
        refine ⟨ht, ih _ ?_ (ht.add hsizes.1) hsizes.2 rfl⟩
        omega
      · simp

theorem recordAt_eq_aux {ring : DataRing} {t : ℕ} :
    (∃ offset size flags, ring.recordAt t = .aux offset size flags) ↔
      ring.typeAt t = recordAux := by
  unfold DataRing.recordAt
  dsimp only
  constructor
  · rintro ⟨offset, size, flags, h⟩
    split_ifs at h with h1 h2 h3 h4 h5
    exact h5
  · intro h
    rw [h]
    simp [recordAux, recordSample, recordThrottle, recordUnthrottle, recordItraceStart]

end Ring

/-! ## Packets that are not split -/

theorem Sampler.decodePacket_snd (s : Sampler) (mem : ℕ → U8) (pos : ℕ) :
    (s.decodePacket mem pos).2 = payloadSkip (mem pos) := by
  unfold decodePacket payloadSkip
  dsimp only
  split_ifs <;> rfl

/-- A packet's round depends on its header and the payload bytes it reads. -/
theorem Sampler.decodePacket_congr (s : Sampler) {mem mem' : ℕ → U8} {pos pos' : ℕ}
    (hhead : mem' pos' = mem pos)
    (hpayload : ∀ k < payloadReads (mem pos), mem' (pos' + 1 + k) = mem (pos + 1 + k)) :
    s.decodePacket mem' pos' = s.decodePacket mem pos := by
  have hread : ∀ n, n = payloadReads (mem pos) → readSpePayload mem' pos' n =
      readSpePayload mem pos n := by
    rintro n rfl
    unfold readSpePayload
    congr 1
    apply List.map_congr_left
    intro k hk
    exact hpayload k (List.mem_range.mp hk)
  unfold payloadReads at hread
  unfold decodePacket
  dsimp only
  rw [hhead]
  by_cases ha : isArmSpeAddressPacket (mem pos) = true
  · simp only [if_pos ha] at hread ⊢
    rw [hread 8 rfl]
  · simp only [if_neg ha] at hread ⊢
    by_cases hc : isArmSpeCounterPacket (mem pos) = true
    · simp only [if_pos hc] at hread ⊢
      rw [hread _ rfl]
    · simp only [if_neg hc] at hread ⊢
      by_cases he : isArmSpeEventsPacket (mem pos) = true
      · simp only [if_pos he] at hread ⊢
        rw [hread _ rfl]
      · simp only [if_neg he]

section Aux

variable {area : AuxArea} {offset : U64}

/-- Going on inside the area is going on in memory. -/
theorem AuxArea.cell_add (area : AuxArea) (offset : U64) {n : ℕ}
    (hsize : area.size.toNat = 2 ^ n) (it j : ℕ)
    (h : area.cell offset it + j < area.size.toNat) :
    area.cell offset (it + j) = area.cell offset it + j := by
  have hn : n < 64 := by
    by_contra hge
    have hlt := area.size.isLt
    rw [hsize] at hlt
    exact absurd (Nat.pow_le_pow_right (show 0 < 2 by decide) (Nat.le_of_not_lt hge))
      (Nat.not_le_of_lt hlt)
  have hdvd : area.size.toNat ∣ 2 ^ 64 := by
    rw [hsize]
    exact Nat.pow_dvd_pow 2 hn.le
  unfold cell at h ⊢
  rw [BitVec.toNat_umod] at h ⊢
  rw [BitVec.toNat_umod, BitVec.ofNat_add, ← BitVec.add_assoc, BitVec.toNat_add _ (BitVec.ofNat 64 j),
    Nat.mod_mod_of_dvd _ hdvd, BitVec.toNat_ofNat, Nat.add_mod, Nat.mod_mod_of_dvd _ hdvd,
    ← Nat.add_mod, Nat.add_mod, Nat.mod_eq_of_lt (show j < area.size.toNat by omega),
    Nat.mod_eq_of_lt h]

theorem AuxArea.region_cell (area : AuxArea) (offset : U64) {it : ℕ} {size : U64}
    (h : it < size.toNat) : (area.region offset).cell 0 it = it := by
  have hsize := size.isLt
  have hzero : (0 : U64) + BitVec.ofNat 64 it = BitVec.ofNat 64 it := BitVec.zero_add _
  unfold cell region
  rw [BitVec.toNat_umod, hzero, BitVec.toNat_ofNat, BitVec.toNat_allOnes,
    Nat.mod_eq_of_lt (show it < 2 ^ 64 by omega), Nat.mod_eq_of_lt (by omega)]

/-- The packet loop over bytes that are nowhere split. -/
theorem decodeAux_region {n : ℕ} (hn : area.size.toNat = 2 ^ n) {size : U64} {it : ℕ}
    (hfit : ∀ i ∈ packetStarts area offset size it,
      area.cell offset i + 1 + payloadReads (area.mem (area.cell offset i)) ≤ area.size.toNat)
    (s : Sampler) :
    decodeAux area offset size it s = decodeAux (area.region offset) 0 size it s := by
  induction hrest : size.toNat - it using Nat.strongRecOn generalizing it s with
  | _ rest ih =>
      rw [decodeAux.eq_def area, decodeAux.eq_def (area.region offset)]
      rw [packetStarts] at hfit
      by_cases hlt : it < size.toNat
      · rw [if_pos hlt] at hfit
        rw [if_pos hlt, if_pos hlt]
        rw [List.forall_mem_cons] at hfit
        have hpos : ((0 + BitVec.ofNat 64 it) % (area.region offset).size).toNat = it :=
          area.region_cell offset hlt
        have hpacket : s.decodePacket (area.region offset).mem it =
            s.decodePacket area.mem (area.cell offset it) := by
          apply s.decodePacket_congr
          · rfl
          · intro k hk
            have hcell := area.cell_add offset hn it (1 + k) (by omega)
            change area.mem (area.cell offset (it + 1 + k)) = _
            rw [Nat.add_assoc, hcell, Nat.add_assoc]
        dsimp only
        rw [hpos, hpacket]
        change decodeAux area offset size
          (it + (1 + (s.decodePacket area.mem (area.cell offset it)).2)) _ = _
        rw [s.decodePacket_snd]
        refine ih _ ?_ hfit.2 _ rfl
        omega
      · rw [if_neg hlt, if_neg hlt]

theorem Sampler.processRegion_eq {n : ℕ} (hn : area.size.toNat = 2 ^ n) {r : RingRecord}
    (hfit : ∀ offset size flags, r = .aux offset size flags → flags ≠ auxFlagTruncated →
      ∀ i ∈ packetStarts area offset size 0,
        area.cell offset i + 1 + payloadReads (area.mem (area.cell offset i)) ≤ area.size.toNat)
    (s : Sampler) : s.processRecord area r = Sampler.processRegion area s r := by
  cases r with
  | aux offset size flags =>
      change s.processRecord area (.aux offset size flags) =
        s.processRecord (area.region offset) (.aux 0 size flags)
      unfold processRecord
      dsimp only
      by_cases htrunc : flags ≠ auxFlagTruncated
      · rw [if_pos htrunc, if_pos htrunc,
          decodeAux_region hn (hfit offset size flags rfl htrunc)]
      · rw [if_neg htrunc, if_neg htrunc]
  | sample time addr => rfl
  | throttle => rfl
  | unthrottle => rfl
  | itraceStart => rfl
  | other type => rfl

/-- All reads of a packet lie in the AUX area exactly if its payload is not split. -/
theorem AuxArea.packetReads_lt_iff {it : ℕ} :
    (∀ i ∈ area.packetReads offset it, i < area.size.toNat) ↔
      area.cell offset it + 1 + payloadReads (area.mem (area.cell offset it)) ≤
        area.size.toNat := by
  unfold packetReads
  constructor
  · intro h
    have hlast := h (area.cell offset it + payloadReads (area.mem (area.cell offset it)))
      (mem_span.mpr (by omega))
    omega
  · intro h i hi
    rw [mem_span] at hi
    omega

end Aux

/-- A call on rings at any position gives the samples and counters of the contiguous layout and
stays inside its areas exactly if nothing that is copied as a whole is split by the end of its
area. What it returns is what the records at its positions make of the sampler. -/
theorem ring_position_independent_iff (m : Mapping) (hm : m.Aligned) (s : Sampler) :
    (m.PositionIndependent s ↔ m.NothingSplit s) ∧
      ∀ s', m.process s = .returns s' →
        s' = s.processSamplesLocked m.area ((m.starts s).map m.ring.recordAt) := by
  refine ⟨?_, fun s' h => m.process_returns h⟩
  obtain ⟨n, hn⟩ := hm.aux_size
  have haligned : ∀ t ∈ m.starts s, 8 ∣ t := by
    unfold Mapping.starts
    split_ifs
    · simp
    · exact recordStarts_aligned hm.tail hm.sizes
  constructor
  · rintro ⟨-, hring, haux⟩ t ht offset size flags hrec
    have htype : m.ring.typeAt t = recordAux := recordAt_eq_aux.mp ⟨offset, size, flags, hrec⟩
    refine ⟨(recordReads_lt_iff hm (haligned t ht)).mp (hring t ht) htype, ?_⟩
    intro htrunc it hit
    apply AuxArea.packetReads_lt_iff.mp
    intro i hi
    apply haux t ht
    rw [hrec]
    simp only [AuxArea.recordReads, if_pos htrunc]
    exact List.mem_flatMap.mpr ⟨it, hit, hi⟩
  · intro h
    refine ⟨?_, ?_, ?_⟩
    · apply drainCall_contiguous hm
      intro t ht s'
      apply Sampler.processRegion_eq hn
      intro offset size flags hrec htrunc
      exact (h t ht offset size flags hrec).2 htrunc
    · intro t ht
      rw [recordReads_lt_iff hm (haligned t ht)]
      intro htype
      obtain ⟨offset, size, flags, hrec⟩ := recordAt_eq_aux.mpr htype
      exact (h t ht offset size flags hrec).1
    · intro t ht i hi
      cases hrec : m.ring.recordAt t with
      | aux offset size flags =>
          rw [hrec] at hi
          simp only [AuxArea.recordReads] at hi
          split_ifs at hi with htrunc
          · obtain ⟨it, hit, hi⟩ := List.mem_flatMap.mp hi
            exact AuxArea.packetReads_lt_iff.mpr ((h t ht offset size flags hrec).2 htrunc it hit)
              i hi
          · cases hi
      | sample time addr =>
          rw [hrec] at hi
          cases hi
      | throttle =>
          rw [hrec] at hi
          cases hi
      | unthrottle =>
          rw [hrec] at hi
          cases hi
      | itraceStart =>
          rw [hrec] at hi
          cases hi
      | other type =>
          rw [hrec] at hi
          cases hi

def auxRing (offset size : ℕ) : DataRing where
  mem := fun i => (leBytes 4 recordAux ++ leBytes 2 0 ++ leBytes 2 64 ++ leBytes 8 offset ++
    leBytes 8 size ++ leBytes 8 0).getD i 0
  size := 2 ^ 20

def pcPackets : List U8 := [0xB0, 0x88, 0x77, 0x66, 0x55, 0x44, 0x33, 0x22, 0x11, 0x01]

/-- An AUX area of one mebibyte with these packets from a position on; the memory behind it holds
something else. -/
def packetArea (offset : ℕ) : AuxArea where
  mem := fun i => if i < 2 ^ 20 then pcPackets.getD ((i + 2 ^ 20 - offset) % 2 ^ 20) 0 else 0xEE
  size := 2 ^ 20

def packetMapping (offset : ℕ) : Mapping := ⟨auxRing offset 10, packetArea offset, 64, 0⟩

def DrainOutcome.pcs : DrainOutcome → List U64
  | .returns s => s.written.filterMap fun w => match w with
      | .spe x => some x.pc
      | .sample _ _ => none
  | .throws _ _ => []
  | .loops => []

/-- Both the record and its packets go on at the start of their areas. The data area ends between
the fields of the record and its `sample_id`, the AUX area between the address and the end. -/
def wrappedMapping : Mapping where
  ring := ⟨fun i => (auxRing (2 ^ 20 - 9) 10).mem ((i + 32) % 2 ^ 20), 2 ^ 20⟩
  area := packetArea (2 ^ 20 - 9)
  head := 2 ^ 20 + 32
  tail := 2 ^ 20 - 32

theorem ring_position_independent_plain :
    wrappedMapping.PositionIndependent (Sampler.start .fresh) ∧
      (wrappedMapping.process (Sampler.start .fresh)).pcs = [0x22334455667788] := by
  have hm : wrappedMapping.Aligned :=
    ⟨by decide, by decide, ⟨20, by decide⟩, by decide, by decide +kernel⟩
  have hpcs : (wrappedMapping.process (Sampler.start .fresh)).pcs = [0x22334455667788] := by
    decide +kernel
  rw [(ring_position_independent_iff wrappedMapping hm _).1]
  have hstarts : wrappedMapping.starts (Sampler.start .fresh) = [2 ^ 20 - 32] := by decide +kernel
  have hrec : (match wrappedMapping.ring.recordAt (2 ^ 20 - 32) with
      | .aux offset size flags => some (offset, size, flags)
      | _ => none) = some (2 ^ 20 - 9, 10, 0) := by decide +kernel
  have hpackets : packetStarts wrappedMapping.area (2 ^ 20 - 9) 10 0 = [0, 9] := by decide +kernel
  refine ⟨?_, hpcs⟩
  intro t ht offset size flags he
  rw [hstarts, List.mem_singleton] at ht
  subst ht
  rw [he] at hrec
  obtain ⟨rfl, rfl, rfl⟩ : offset = 2 ^ 20 - 9 ∧ size = 10 ∧ flags = 0 := by simpa using hrec
  refine ⟨by decide, ?_⟩
  intro _
  rw [hpackets]
  decide +kernel

/-- An address packet whose payload goes over the end of the AUX area. -/
theorem ring_position_split :
    (packetMapping (2 ^ 20 - 4)).Aligned ∧
    ¬ (packetMapping (2 ^ 20 - 4)).PositionIndependent (Sampler.start .fresh) ∧
    ((packetMapping (2 ^ 20 - 4)).process (Sampler.start .fresh)).pcs = [0xEEEEEEEE667788] ∧
    ((packetMapping (2 ^ 20 - 4)).processContiguous (Sampler.start .fresh)).pcs =
      [0x22334455667788] := by
  have hcode : ((packetMapping (2 ^ 20 - 4)).process (Sampler.start .fresh)).pcs =
      [0xEEEEEEEE667788] := by decide +kernel
  have hplain : ((packetMapping (2 ^ 20 - 4)).processContiguous (Sampler.start .fresh)).pcs =
      [0x22334455667788] := by decide +kernel
  refine ⟨⟨by decide, by decide, ⟨20, by decide⟩, by decide, by decide +kernel⟩, ?_, hcode, hplain⟩
  intro h
  rw [h.1, hplain] at hcode
  exact absurd hcode (by decide)

end RdSpeTool
