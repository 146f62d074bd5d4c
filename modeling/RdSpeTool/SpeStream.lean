import RdSpeTool.SampleDrain

/-!
# SPE streams

The short-format packets as the profiler's parser should see them, records closed by an end or a
timestamp packet, and the sample a record stands for. A stream reaches the parser cut into AUX
records and drains; the parser carries its pending sample over both.
-/

namespace RdSpeTool

/-! ## Packets and records -/

def eventsHeader (sz : Fin 4) : U8 := 0x42 ||| BitVec.ofNat 8 sz <<< 4
def counterHeader (idx : Fin 8) : U8 := 0x98 ||| BitVec.ofNat 8 idx
def addressHeader (idx : Fin 8) : U8 := 0xB0 ||| BitVec.ofNat 8 idx

structure OtherHeader (h : U8) : Prop where
  events : ∀ sz, h ≠ eventsHeader sz
  counter : ∀ idx, h ≠ counterHeader idx
  address : ∀ idx, h ≠ addressHeader idx
  padding : h ≠ 0x00
  finish : h ≠ 0x01
  timestamp : h ≠ 0x71

/-- A packet that closes no record. -/
inductive SpePacket
  | padding
  | events (sz : Fin 4) (payload : List U8) (h : payload.length = 2 ^ sz.val)
  | counter (idx : Fin 8) (payload : List U8) (h : payload.length = 2)
  | address (idx : Fin 8) (payload : List U8) (h : payload.length = 8)
  | other (header : U8) (hother : OtherHeader header) (payload : List U8)
      (h : payload.length = 2 ^ (header >>> 4 &&& 3).toNat)

inductive SpeClose
  | finish
  | timestamp (payload : List U8) (h : payload.length = 8)

inductive SpeToken
  | packet (p : SpePacket)
  | close (c : SpeClose)

def SpeToken.bytes : SpeToken → List U8
  | .packet .padding => [0x00]
  | .packet (.events sz payload _) => eventsHeader sz :: payload
  | .packet (.counter idx payload _) => counterHeader idx :: payload
  | .packet (.address idx payload _) => addressHeader idx :: payload
  | .packet (.other header _ payload _) => header :: payload
  | .close .finish => [0x01]
  | .close (.timestamp payload _) => 0x71 :: payload

structure SpeRecord where
  packets : List SpePacket
  close : SpeClose

def SpeRecord.tokens (r : SpeRecord) : List SpeToken := r.packets.map .packet ++ [.close r.close]

/-! ## The sample of a record -/

inductive SpeKind
  | pc
  | dataVa
  | latTotal
  | latIssue
  | latXlat
  | events
  deriving DecidableEq

def SpeKind.flag : SpeKind → U64
  | pc => pcValid
  | dataVa => dataVaValid
  | latTotal => latTotalValid
  | latIssue => latIssueValid
  | latXlat => latXlatValid
  | events => eventsValid

def lowAddress (payload : List U8) : ℕ :=
  (payload.take 7).foldr (fun b acc => b.toNat + 256 * acc) 0

/-- The last payload byte tells a non-secure access (bit 7) in EL1 or EL2 (bits 6 and 5). -/
def isKernelByte (b : U8) : Bool :=
  128 ≤ b.toNat && (b.toNat / 32 % 4 == 1 || b.toNat / 32 % 4 == 2)

/-- Above its seven bytes a kernel instruction address is all ones, any other is zero. -/
def instructionAddress (payload : List U8) : U64 :=
  BitVec.ofNat 64 (lowAddress payload +
    if (payload[7]?.map isKernelByte).getD false then 0xFF * 2 ^ 56 else 0)

def dataAddress (payload : List U8) : U64 := BitVec.ofNat 64 (lowAddress payload)

/-- The kind of a packet with its payload, addresses cleaned. -/
def SpePacket.content : SpePacket → Option (SpeKind × U64)
  | .address idx payload _ =>
      if idx = 0 then some (.pc, instructionAddress payload)
      else if idx = 2 then some (.dataVa, dataAddress payload)
      else none
  | .counter idx payload _ =>
      if idx = 0 then some (.latTotal, leWord payload)
      else if idx = 1 then some (.latIssue, leWord payload)
      else if idx = 2 then some (.latXlat, leWord payload)
      else none
  | .events _ payload _ => some (.events, leWord payload)
  | .padding => none
  | .other _ _ _ _ => none

def lastOf (ps : List SpePacket) (k : SpeKind) : Option U64 :=
  (ps.filterMap fun p => p.content.bind fun c => if c.1 = k then some c.2 else none).getLast?

/-- All three latencies are known and leave a part for the execution. -/
def hasExecLatency (view : SpeKind → Option U64) : Bool :=
  match view .latTotal, view .latIssue, view .latXlat with
  | some total, some issue, some xlat => issue.toNat + xlat.toNat ≤ total.toNat
  | _, _, _ => false

def flagBits (has : SpeKind → Bool) : U64 :=
  (if has .pc then pcValid else 0) ||| (if has .dataVa then dataVaValid else 0)
    ||| (if has .latTotal then latTotalValid else 0) ||| (if has .latIssue then latIssueValid else 0)
    ||| (if has .latXlat then latXlatValid else 0) ||| (if has .events then eventsValid else 0)

/-- The flags of exactly the kinds present. -/
def flagsOf (view : SpeKind → Option U64) : U64 := flagBits fun k => (view k).isSome

def SpeSample.ofView (view : SpeKind → Option U64) : SpeSample where
  pc := (view .pc).getD 0
  dataVa := (view .dataVa).getD 0
  latTotal := (view .latTotal).getD 0
  latIssue := (view .latIssue).getD 0
  latXlat := (view .latXlat).getD 0
  eventBits := (view .events).getD 0
  flags := flagsOf view

/-- One sample for a record with an instruction address. -/
def SpeRecord.sample (r : SpeRecord) : Option SpeSample :=
  if lastOf r.packets .pc = none then none
  else if hasExecLatency (lastOf r.packets) then
    some { SpeSample.ofView (lastOf r.packets) with
      flags := flagsOf (lastOf r.packets) ||| latExecValid }
  else some (SpeSample.ofView (lastOf r.packets))

/-! ## Streams cut into AUX records and drains -/

def tokensSize (ts : List SpeToken) : ℕ := (ts.map fun t => t.bytes.length).sum

def Stands (mem : ℕ → U8) (pos : ℕ) (bytes : List U8) : Prop :=
  ∀ j b, bytes[j]? = some b → mem (pos + j) = b

instance (mem : ℕ → U8) (pos : ℕ) (bytes : List U8) : Decidable (Stands mem pos bytes) :=
  decidable_of_iff (∀ j : Fin bytes.length, mem (pos + j) = bytes.get j) <| by
    constructor
    · intro h j b hb
      obtain ⟨hj, rfl⟩ := List.getElem?_eq_some_iff.mp hb
      exact h ⟨j, hj⟩
    · intro h j
      exact h j (bytes.get j) (by simp)

/-- Consecutive packets from stream position `start` on, none split at the end of the area. -/
def Laid (area : AuxArea) (start : U64) : List SpeToken → Prop
  | [] => True
  | t :: ts =>
      (start % area.size).toNat + t.bytes.length ≤ area.size.toNat ∧
        Stands area.mem (start % area.size).toNat t.bytes ∧
        Laid area (start + BitVec.ofNat 64 t.bytes.length) ts

instance decidableLaid (area : AuxArea) (start : U64) :
    (ts : List SpeToken) → Decidable (Laid area start ts)
  | [] => isTrue trivial
  | t :: ts =>
      have := decidableLaid area (start + BitVec.ofNat 64 t.bytes.length) ts
      inferInstanceAs (Decidable (_ ∧ _ ∧ _))

/-- What one call finds in the data ring: AUX records over whole packets, and other records. -/
inductive DrainItem
  | chunk (offset flags : U64) (tokens : List SpeToken)
  | record (r : RingRecord)

def DrainItem.ring : DrainItem → RingRecord
  | .chunk offset flags tokens => .aux offset (BitVec.ofNat 64 (tokensSize tokens)) flags
  | .record r => r

def DrainItem.tokens : DrainItem → List SpeToken
  | .chunk _ _ tokens => tokens
  | .record _ => []

/-- An AUX record without the truncation flag whose packets stand in the area; other records are
not AUX records. -/
def DrainItem.Ok (area : AuxArea) : DrainItem → Prop
  | .chunk offset flags tokens => flags &&& auxFlagTruncated = 0 ∧
      tokensSize tokens < 2 ^ 64 ∧ Laid area offset tokens
  | .record r => ∀ offset size flags, r ≠ .aux offset size flags

structure SpeDrain where
  started : ℕ
  area : AuxArea
  items : List DrainItem

def Sampler.drain (s : Sampler) (d : SpeDrain) : Sampler :=
  (start^[d.started] s).processSamplesLocked d.area (d.items.map DrainItem.ring)

def Sampler.speWritten (s : Sampler) : List SpeSample :=
  s.written.filterMap fun w => match w with
    | .spe x => some x
    | .sample _ _ => none

/-! ## Header classes -/

theorem addressHeader_class (idx : Fin 8) : isArmSpeAddressPacket (addressHeader idx) = true ∧
    armSpeShortIndex (addressHeader idx) = idx := by
  revert idx
  decide

theorem counterHeader_class (idx : Fin 8) : isArmSpeAddressPacket (counterHeader idx) = false ∧
    isArmSpeCounterPacket (counterHeader idx) = true ∧
    armSpeShortIndex (counterHeader idx) = idx ∧ armSpePayloadSize (counterHeader idx) = 2 := by
  revert idx
  decide

theorem eventsHeader_class (sz : Fin 4) : isArmSpeAddressPacket (eventsHeader sz) = false ∧
    isArmSpeCounterPacket (eventsHeader sz) = false ∧
    isArmSpeEventsPacket (eventsHeader sz) = true ∧
    armSpePayloadSize (eventsHeader sz) = 2 ^ sz.val := by
  revert sz
  decide

theorem exists_addressHeader : ∀ h : U8, isArmSpeAddressPacket h = true →
    ∃ idx, h = addressHeader idx := by
  decide +kernel

theorem exists_counterHeader : ∀ h : U8, isArmSpeCounterPacket h = true →
    ∃ idx, h = counterHeader idx := by
  decide +kernel

theorem exists_eventsHeader : ∀ h : U8, isArmSpeEventsPacket h = true →
    ∃ sz, h = eventsHeader sz := by
  decide +kernel

/-- The fallback sizes of unknown packets follow the size field. -/
theorem other_payloadSize : ∀ h : U8, (if h &&& 0x30 = 0x00 then 1
    else if h &&& 0x30 = 0x10 then 2 else if h &&& 0x30 = 0x20 then 4 else 8) =
      2 ^ (h >>> 4 &&& 3).toNat := by
  decide +kernel

theorem OtherHeader.not_class {h : U8} (hh : OtherHeader h) : isArmSpeAddressPacket h = false ∧
    isArmSpeCounterPacket h = false ∧ isArmSpeEventsPacket h = false := by
  refine ⟨?_, ?_, ?_⟩
  · refine Bool.eq_false_iff.mpr fun hc => ?_
    obtain ⟨idx, he⟩ := exists_addressHeader h hc
    exact hh.address idx he
  · refine Bool.eq_false_iff.mpr fun hc => ?_
    obtain ⟨idx, he⟩ := exists_counterHeader h hc
    exact hh.counter idx he
  · refine Bool.eq_false_iff.mpr fun hc => ?_
    obtain ⟨sz, he⟩ := exists_eventsHeader h hc
    exact hh.events sz he

/-! ## Addresses -/

theorem lowAddress_lt (payload : List U8) : lowAddress payload < 2 ^ 56 := by
  have hbound : ∀ l : List U8,
      l.foldr (fun (b : U8) acc => b.toNat + 256 * acc) 0 < 256 ^ l.length := by
    intro l
    induction l with
    | nil => simp
    | cons b l ih =>
        have hb := b.isLt
        rw [List.foldr_cons, List.length_cons, pow_succ]
        omega
  have hlen : (payload.take 7).length ≤ 7 := List.length_take_le ..
  calc lowAddress payload < 256 ^ (payload.take 7).length := hbound _
    _ ≤ 256 ^ 7 := Nat.pow_le_pow_right (by decide) hlen
    _ = 2 ^ 56 := by norm_num

/-- Eight bytes are seven bytes of address and one of state. -/
theorem leWord_address {payload : List U8} (h : payload.length = 8) :
    ∃ b, payload[7]? = some b ∧
      (leWord payload).toNat = lowAddress payload + 2 ^ 56 * b.toNat := by
  have hlow := lowAddress_lt payload
  have hsplit : payload = payload.take 7 ++ [payload[7]] := by
    rw [List.take_concat_get' payload 7 (by omega), List.take_of_length_le h.le]
  have hfold : ∀ (l : List U8) (b : U8),
      (l ++ [b]).foldr (fun (b : U8) acc => b.toNat + 256 * acc) 0 =
        l.foldr (fun (b : U8) acc => b.toNat + 256 * acc) 0 + 256 ^ l.length * b.toNat := by
    intro l b
    induction l with
    | nil => simp
    | cons a l ih =>
        rw [List.cons_append, List.foldr_cons, ih, List.foldr_cons, List.length_cons]
        ring
  have hget : payload[7]? = some payload[7] := List.getElem?_eq_getElem (by omega)
  have hseven : (payload.take 7).length = 7 := by
    rw [List.length_take, h]
    rfl
  generalize payload[7] = b at hsplit hget
  have hb := b.isLt
  refine ⟨b, hget, ?_⟩
  rw [leWord, List.take_of_length_le h.le, BitVec.toNat_ofNat]
  conv_lhs => rw [hsplit, hfold, hseven]
  change (lowAddress payload + _) % _ = _
  norm_num at hlow ⊢
  omega

/-- The decoder cleans a data address. -/
theorem decodeArmSpeAddressPayload_data {payload : List U8} (h : payload.length = 8) :
    decodeArmSpeAddressPayload 2 (leWord payload) = dataAddress payload := by
  obtain ⟨b, -, hword⟩ := leWord_address h
  have hlow := lowAddress_lt payload
  apply BitVec.eq_of_toNat_eq
  change ((leWord payload) &&& BitVec.ofNat 64 (2 ^ 56 - 1)).toNat = _
  rw [dataAddress, BitVec.toNat_and, BitVec.toNat_ofNat, BitVec.toNat_ofNat, hword]
  rw [Nat.mod_eq_of_lt (by omega : 2 ^ 56 - 1 < 2 ^ 64), Nat.and_two_pow_sub_one_eq_mod]
  omega

/-- The decoder cleans an instruction address. -/
theorem decodeArmSpeAddressPayload_instruction {payload : List U8} (h : payload.length = 8) :
    decodeArmSpeAddressPayload 0 (leWord payload) = instructionAddress payload := by
  have hdata := decodeArmSpeAddressPayload_data h
  obtain ⟨b, hb, hword⟩ := leWord_address h
  have hlow := lowAddress_lt payload
  have hbyte := b.isLt
  change armSpeAddrGetBytes06 (leWord payload) = dataAddress payload at hdata
  have hns : (leWord payload >>> 63 &&& 0x1).toNat = b.toNat / 128 := by
    rw [BitVec.toNat_and, BitVec.toNat_ushiftRight, hword, Nat.shiftRight_eq_div_pow]
    change _ &&& 2 ^ 1 - 1 = _
    rw [Nat.and_two_pow_sub_one_eq_mod]
    omega
  have hel : (leWord payload >>> 61 &&& 0x3).toNat = b.toNat / 32 % 4 := by
    rw [BitVec.toNat_and, BitVec.toNat_ushiftRight, hword, Nat.shiftRight_eq_div_pow]
    change _ &&& 2 ^ 2 - 1 = _
    rw [Nat.and_two_pow_sub_one_eq_mod]
    omega
  have hcond : (leWord payload >>> 63 &&& 0x1 ≠ 0 ∧
      (leWord payload >>> 61 &&& 0x3 = 1 ∨ leWord payload >>> 61 &&& 0x3 = 2)) ↔
        isKernelByte b = true := by
    have hsmall : (0 : U64).toNat = 0 ∧ (1 : U64).toNat = 1 ∧ (2 : U64).toNat = 2 :=
      ⟨rfl, rfl, rfl⟩
    unfold isKernelByte
    simp only [ne_eq, BitVec.toNat_inj.symm, hns, hel, hsmall, Bool.and_eq_true, Bool.or_eq_true,
      beq_iff_eq, decide_eq_true_eq]
    omega
  unfold decodeArmSpeAddressPayload
  rw [if_pos (Or.inl rfl), hdata, instructionAddress, hb, Option.map_some, Option.getD_some]
  dsimp only
  by_cases hk : isKernelByte b = true
  · rw [if_pos (hcond.mpr hk), if_pos hk]
    apply BitVec.eq_of_toNat_eq
    -- the top byte is put above an address that leaves it free
    have hor : lowAddress payload ||| 2 ^ 56 * 0xFF = 2 ^ 56 * 0xFF + lowAddress payload := by
      rw [Nat.or_comm, Nat.two_pow_add_eq_or_of_lt hlow]
    rw [BitVec.toNat_or, dataAddress, BitVec.toNat_ofNat, BitVec.toNat_ofNat,
      Nat.mod_eq_of_lt (by omega)]
    change _ ||| 2 ^ 56 * 0xFF = _
    rw [hor]
    omega
  · rw [if_neg fun hc => hk (hcond.mp hc), if_neg hk]
    rfl

/-! ## One packet -/

def SpeSample.put (p : SpeSample) (k : SpeKind) (v : U64) : SpeSample :=
  match k with
  | .pc => { p with pc := v, flags := p.flags ||| pcValid }
  | .dataVa => { p with dataVa := v, flags := p.flags ||| dataVaValid }
  | .latTotal => { p with latTotal := v, flags := p.flags ||| latTotalValid }
  | .latIssue => { p with latIssue := v, flags := p.flags ||| latIssueValid }
  | .latXlat => { p with latXlat := v, flags := p.flags ||| latXlatValid }
  | .events => { p with eventBits := v, flags := p.flags ||| eventsValid }

/-- Pending sample and samples written: what the parser carries from packet to packet. -/
def Sampler.core (s : Sampler) : SpeSample × List SpeSample := (s.pending, s.speWritten)

def coreStep (c : SpeSample × List SpeSample) : SpeToken → SpeSample × List SpeSample
  | .packet p =>
      match p.content with
      | none => c
      | some (k, v) => (c.1.put k v, c.2)
  | .close _ =>
      if c.1.flags &&& pcValid = 0 then (.zero, c.2) else (.zero, c.2 ++ [Sampler.sampleOf c.1])

theorem readSpePayload_eq {mem : ℕ → U8} {pos : ℕ} {header : U8} {payload : List U8}
    (h : Stands mem pos (header :: payload)) :
    readSpePayload mem pos payload.length = leWord payload := by
  unfold readSpePayload
  congr 1
  apply List.ext_getElem
  · simp
  · intro k hk hk'
    have hget := h (k + 1) payload[k] (by simp [hk'])
    simpa [add_assoc, add_comm 1 k] using hget

theorem core_flush (s : Sampler) (fromEndPacket : Bool) (c : SpeClose) :
    (s.flushPendingSpeSampleLocked fromEndPacket).core = coreStep s.core (.close c) := by
  unfold Sampler.flushPendingSpeSampleLocked coreStep
  by_cases h : s.pending.flags &&& pcValid = 0
  · rw [if_pos h, if_pos (show s.core.1.flags &&& pcValid = 0 from h)]
    rfl
  · rw [if_neg h, if_neg (show ¬ s.core.1.flags &&& pcValid = 0 from h)]
    simp [Sampler.core, Sampler.speWritten, Sampler.resetPendingSpeSample]

/-- The parser reads a packet that stands at its position as what it is, and skips its length. -/
theorem decodePacket_token (s : Sampler) {mem : ℕ → U8} {pos : ℕ} {t : SpeToken}
    (h : Stands mem pos t.bytes) : (s.decodePacket mem pos).1.core = coreStep s.core t ∧
      1 + (s.decodePacket mem pos).2 = t.bytes.length := by
  have hhead : ∀ b rest, t.bytes = b :: rest → mem pos = b := by
    intro b rest hb
    exact h 0 b (by rw [hb]; rfl)
  cases t with
  | close c =>
      cases c with
      | finish =>
          have hm : mem pos = 0x01 := hhead _ _ rfl
          simp only [Sampler.decodePacket, hm]
          exact ⟨core_flush s true .finish, rfl⟩
      | timestamp payload hp =>
          have hm : mem pos = 0x71 := hhead _ _ rfl
          simp only [Sampler.decodePacket, hm]
          refine ⟨core_flush s false (.timestamp payload hp), ?_⟩
          change 1 + 8 = payload.length + 1
          omega
  | packet p =>
      cases p with
      | padding =>
          have hm : mem pos = 0x00 := hhead _ _ rfl
          simp only [Sampler.decodePacket, hm]
          exact ⟨rfl, rfl⟩
      | other header hother payload hp =>
          have hm : mem pos = header := hhead _ _ rfl
          obtain ⟨haddr, hcnt, hev⟩ := hother.not_class
          simp only [Sampler.decodePacket, hm, haddr, hcnt, hev, hother.padding, hother.finish,
            hother.timestamp, Bool.false_eq_true, if_false, other_payloadSize]
          refine ⟨rfl, ?_⟩
          change 1 + 2 ^ (header >>> 4 &&& 3).toNat = payload.length + 1
          omega
      | events sz payload hp =>
          have hm : mem pos = eventsHeader sz := hhead _ _ rfl
          obtain ⟨haddr, hcnt, hev, hsize⟩ := eventsHeader_class sz
          have hread : readSpePayload mem pos (2 ^ sz.val) = leWord payload :=
            hp ▸ readSpePayload_eq h
          simp only [Sampler.decodePacket, hm, haddr, hcnt, hev, hsize, hread, Bool.false_eq_true,
            if_false, if_true]
          refine ⟨rfl, ?_⟩
          change 1 + 2 ^ sz.val = payload.length + 1
          omega
      | counter idx payload hp =>
          have hm : mem pos = counterHeader idx := hhead _ _ rfl
          obtain ⟨haddr, hcnt, hidx, hsize⟩ := counterHeader_class idx
          have hread : readSpePayload mem pos 2 = leWord payload := hp ▸ readSpePayload_eq h
          have hlen : 1 + 2 = (SpeToken.packet (.counter idx payload hp)).bytes.length := by
            simp [SpeToken.bytes, hp]
          have hval : ∀ n : Fin 8, (idx.val = n.val) = (idx = n) := fun n => propext Fin.ext_iff.symm
          have h0 : (idx.val = 0) = (idx = 0) := hval 0
          have h1 : (idx.val = 1) = (idx = 1) := hval 1
          have h2 : (idx.val = 2) = (idx = 2) := hval 2
          simp only [Sampler.decodePacket, hm, haddr, hcnt, hidx, hsize, hread, h0, h1, h2,
            Bool.false_eq_true, if_false, if_true, coreStep, SpePacket.content]
          split_ifs <;> exact ⟨rfl, hlen⟩
      | address idx payload hp =>
          have hm : mem pos = addressHeader idx := hhead _ _ rfl
          obtain ⟨haddr, hidx⟩ := addressHeader_class idx
          have hread : readSpePayload mem pos 8 = leWord payload := hp ▸ readSpePayload_eq h
          have hlen : 1 + 8 = (SpeToken.packet (.address idx payload hp)).bytes.length := by
            simp [SpeToken.bytes, hp]
          have hval : ∀ n : Fin 8, (idx.val = n.val) = (idx = n) := fun n => propext Fin.ext_iff.symm
          have h0 : (idx.val = 0) = (idx = 0) := hval 0
          have h2 : (idx.val = 2) = (idx = 2) := hval 2
          simp only [Sampler.decodePacket, hm, haddr, hidx, hread, h0, h2, if_true, coreStep,
            SpePacket.content]
          split_ifs with hi0 hi2
          · subst hi0
            rw [← decodeArmSpeAddressPayload_instruction hp]
            exact ⟨rfl, hlen⟩
          · subst hi2
            rw [← decodeArmSpeAddressPayload_data hp]
            exact ⟨rfl, hlen⟩
          · exact ⟨rfl, hlen⟩

theorem tokens_bytes_pos (t : SpeToken) : 0 < t.bytes.length := by
  cases t with
  | packet p => cases p <;> simp [SpeToken.bytes]
  | close c => cases c <;> simp [SpeToken.bytes]

/-! ## One AUX record, one drain -/

theorem decodeAux_core {area : AuxArea} {offset size : U64} {ts : List SpeToken} {it : ℕ}
    (s : Sampler) (hsize : it + tokensSize ts = size.toNat)
    (h : Laid area (offset + BitVec.ofNat 64 it) ts) :
    (decodeAux area offset size it s).core = ts.foldl coreStep s.core := by
  induction ts generalizing it s with
  | nil =>
      rw [decodeAux, if_neg (by simp [tokensSize] at hsize; omega)]
      rfl
  | cons t ts ih =>
      obtain ⟨-, hstands, hrest⟩ := h
      obtain ⟨hcore, hlen⟩ := decodePacket_token s hstands
      have hpos := tokens_bytes_pos t
      have hsum : tokensSize (t :: ts) = t.bytes.length + tokensSize ts := by simp [tokensSize]
      rw [decodeAux, if_pos (by omega)]
      dsimp only
      rw [ih _ (by omega) (by rw [hlen, BitVec.ofNat_add, ← BitVec.add_assoc]; exact hrest), hcore,
        List.foldl_cons]

theorem processRecord_core {area : AuxArea} {item : DrainItem} (s : Sampler)
    (h : item.Ok area) :
    (s.processRecord area item.ring).core = item.tokens.foldl coreStep s.core := by
  cases item with
  | chunk offset flags tokens =>
      obtain ⟨hflags, hfit, hlaid⟩ := h
      have hne : flags ≠ auxFlagTruncated := by
        rintro rfl
        exact absurd hflags (by decide)
      have hsize : 0 + tokensSize tokens = (BitVec.ofNat 64 (tokensSize tokens)).toNat := by
        rw [BitVec.toNat_ofNat, Nat.mod_eq_of_lt hfit, Nat.zero_add]
      have hcollide : (s.noteCollision flags).core = s.core := by
        unfold Sampler.noteCollision
        split_ifs <;> rfl
      have hdecode := decodeAux_core (s.noteCollision flags) hsize (by simpa using hlaid)
      rw [hcollide] at hdecode
      simp only [DrainItem.ring, DrainItem.tokens, Sampler.processRecord, if_pos hne]
      exact hdecode
  | record r =>
      cases r with
      | sample time addr => simp [DrainItem.ring, DrainItem.tokens, Sampler.processRecord,
          Sampler.core, Sampler.speWritten]
      | throttle => rfl
      | unthrottle => rfl
      | itraceStart => rfl
      | aux offset size flags => exact absurd rfl (h offset size flags)
      | other type => rfl

theorem foldl_processRecord_core {area : AuxArea} {items : List DrainItem} (s : Sampler)
    (h : ∀ item ∈ items, item.Ok area) :
    ((items.map DrainItem.ring).foldl (fun s r => s.processRecord area r) s).core =
      (items.flatMap DrainItem.tokens).foldl coreStep s.core := by
  induction items generalizing s with
  | nil => rfl
  | cons item items ih =>
      rw [List.map_cons, List.foldl_cons, ih _ fun x hx => h x (List.mem_cons_of_mem item hx),
        processRecord_core s (h item List.mem_cons_self), List.flatMap_cons, List.foldl_append]

theorem start_iterate (s : Sampler) (n : ℕ) : (Sampler.start^[n] s).core = s.core ∧
    s.kinfos.length ≤ (Sampler.start^[n] s).kinfos.length := by
  induction n generalizing s with
  | zero => exact ⟨rfl, le_rfl⟩
  | succ n ih =>
      obtain ⟨hcore, hlen⟩ := ih s.start
      have hstart : s.start.kinfos.length = s.kinfos.length + 1 := List.length_append ..
      exact ⟨hcore, by rw [Function.iterate_succ_apply]; omega⟩

/-- A call in a window hands every packet to the parser, and stays in a window. -/
theorem drain_core {s : Sampler} (hwin : s.kinfos ≠ []) {d : SpeDrain}
    (h : ∀ item ∈ d.items, item.Ok d.area) :
    (s.drain d).core = (d.items.flatMap DrainItem.tokens).foldl coreStep s.core ∧
      (s.drain d).kinfos ≠ [] := by
  obtain ⟨hcore, hlen⟩ := start_iterate s d.started
  have hpos : 0 < (Sampler.start^[d.started] s).kinfos.length :=
    lt_of_lt_of_le (List.length_pos_iff.mpr hwin) hlen
  have hwin' : (Sampler.start^[d.started] s).kinfos ≠ [] := List.length_pos_iff.mp hpos
  refine ⟨?_, ?_⟩
  · unfold Sampler.drain Sampler.processSamplesLocked
    rw [if_neg hwin', ← hcore]
    split_ifs with hnil
    · rw [List.map_eq_nil_iff.mp hnil]
      rfl
    · exact foldl_processRecord_core { Sampler.start^[d.started] s with numSamples := 0 } h
  · apply List.length_pos_iff.mp
    rw [Sampler.drain, Sampler.processSamplesLocked_kinfos]
    exact hpos

theorem drains_core {s : Sampler} (hwin : s.kinfos ≠ []) {drains : List SpeDrain}
    (h : ∀ d ∈ drains, ∀ item ∈ d.items, item.Ok d.area) :
    (drains.foldl Sampler.drain s).core =
      (drains.flatMap fun d => d.items.flatMap DrainItem.tokens).foldl coreStep s.core := by
  induction drains generalizing s with
  | nil => rfl
  | cons d drains ih =>
      obtain ⟨hcore, hwin'⟩ := drain_core hwin (h d List.mem_cons_self)
      rw [List.foldl_cons, ih hwin' fun x hx => h x (List.mem_cons_of_mem d hx), hcore,
        List.flatMap_cons, List.foldl_append]

/-! ## One record -/

/-- Which kinds are present is six bits. -/
def presence (pc dataVa latTotal latIssue latXlat events : Bool) : SpeKind → Bool
  | .pc => pc
  | .dataVa => dataVa
  | .latTotal => latTotal
  | .latIssue => latIssue
  | .latXlat => latXlat
  | .events => events

theorem forall_presence {P : (SpeKind → Bool) → Prop}
    (h : ∀ b1 b2 b3 b4 b5 b6, P (presence b1 b2 b3 b4 b5 b6)) (b : SpeKind → Bool) : P b := by
  have hb : b = presence (b .pc) (b .dataVa) (b .latTotal) (b .latIssue) (b .latXlat)
      (b .events) := by
    funext k
    cases k <;> rfl
  rw [hb]
  apply h

theorem flagBits_update (b : SpeKind → Bool) (k : SpeKind) :
    flagBits (Function.update b k true) = flagBits b ||| k.flag := by
  revert b
  apply forall_presence
  cases k <;> decide

theorem flagsOf_update (view : SpeKind → Option U64) (k : SpeKind) (v : U64) :
    flagsOf (Function.update view k (some v)) = flagsOf view ||| k.flag := by
  have hview : (fun j => (Function.update view k (some v) j).isSome) =
      Function.update (fun j => (view j).isSome) k true := by
    funext j
    by_cases hj : j = k
    · subst hj
      simp
    · simp [Function.update_of_ne hj]
  rw [flagsOf, hview, flagBits_update]
  rfl

theorem ofView_update (view : SpeKind → Option U64) (k : SpeKind) (v : U64) :
    SpeSample.ofView (Function.update view k (some v)) = (SpeSample.ofView view).put k v := by
  have hflags := flagsOf_update view k v
  cases k <;> simp [SpeSample.ofView, SpeSample.put, hflags, SpeKind.flag]

theorem lastOf_concat (ps : List SpePacket) (p : SpePacket) :
    lastOf (ps ++ [p]) = match p.content with
      | none => lastOf ps
      | some (k, v) => Function.update (lastOf ps) k (some v) := by
  funext k
  cases hc : p.content with
  | none => simp [lastOf, hc]
  | some c =>
      obtain ⟨k', v⟩ := c
      by_cases hk : k' = k
      · subst hk
        simp [lastOf, hc]
      · simp [lastOf, hc, hk, Function.update_of_ne (Ne.symm hk)]

/-- After some packets the pending sample shows the last packet of each kind. -/
theorem foldl_packets (ps : List SpePacket) (w : List SpeSample) :
    (ps.map SpeToken.packet).foldl coreStep (.zero, w) = (SpeSample.ofView (lastOf ps), w) := by
  induction ps using List.reverseRecOn with
  | nil => rfl
  | append_singleton ps p ih =>
      rw [List.map_append, List.foldl_append, ih, lastOf_concat]
      simp only [List.map_cons, List.map_nil, List.foldl_cons, List.foldl_nil, coreStep]
      cases p.content with
      | none => rfl
      | some c => rw [ofView_update]

theorem flagsOf_and_pcValid (view : SpeKind → Option U64) :
    flagsOf view &&& pcValid = 0 ↔ view .pc = none := by
  have hbits : ∀ b : SpeKind → Bool, flagBits b &&& pcValid = 0 ↔ b .pc = false :=
    forall_presence (by decide)
  rw [flagsOf, hbits]
  simp

theorem flagsOf_and_latencies (view : SpeKind → Option U64) :
    flagsOf view &&& (latTotalValid ||| latIssueValid ||| latXlatValid) =
        latTotalValid ||| latIssueValid ||| latXlatValid ↔
      (view .latTotal).isSome ∧ (view .latIssue).isSome ∧ (view .latXlat).isSome := by
  have hbits : ∀ b : SpeKind → Bool,
      flagBits b &&& (latTotalValid ||| latIssueValid ||| latXlatValid) =
        latTotalValid ||| latIssueValid ||| latXlatValid ↔
      b .latTotal ∧ b .latIssue ∧ b .latXlat := forall_presence (by decide)
  exact hbits _

/-- Two payload bytes make a small number. -/
theorem leWord_two {payload : List U8} (h : payload.length = 2) :
    (leWord payload).toNat < 2 ^ 16 := by
  obtain ⟨a, b, rfl⟩ := List.length_eq_two.mp h
  have ha := a.isLt
  have hb := b.isLt
  simp only [leWord, List.take_succ_cons, List.take_nil, List.foldr_cons, List.foldr_nil,
    BitVec.toNat_ofNat]
  omega

theorem lastOf_latency_lt {ps : List SpePacket} {k : SpeKind} {v : U64}
    (hk : k = .latTotal ∨ k = .latIssue ∨ k = .latXlat) (h : lastOf ps k = some v) :
    v.toNat < 2 ^ 16 := by
  obtain ⟨p, -, hp⟩ := List.mem_filterMap.mp (List.mem_of_getLast? h)
  cases p with
  | counter idx payload hlen =>
      have hv : v = leWord payload := by
        simp only [SpePacket.content] at hp
        grind
      rw [hv]
      exact leWord_two hlen
  | padding => simp [SpePacket.content] at hp
  | other header hother payload hlen => simp [SpePacket.content] at hp
  | events sz payload hlen =>
      simp only [SpePacket.content] at hp
      grind
  | address idx payload hlen =>
      simp only [SpePacket.content] at hp
      grind

/-- The test of a flush on 64-bit sums is the comparison of the latencies. -/
theorem sampleOf_ofView (ps : List SpePacket) :
    Sampler.sampleOf (SpeSample.ofView (lastOf ps)) =
      if hasExecLatency (lastOf ps) then
        { SpeSample.ofView (lastOf ps) with flags := flagsOf (lastOf ps) ||| latExecValid }
      else SpeSample.ofView (lastOf ps) := by
  have hiff : ((SpeSample.ofView (lastOf ps)).flags &&&
        (latTotalValid ||| latIssueValid ||| latXlatValid) =
          latTotalValid ||| latIssueValid ||| latXlatValid ∧
        (SpeSample.ofView (lastOf ps)).latTotal ≥
          (SpeSample.ofView (lastOf ps)).latIssue + (SpeSample.ofView (lastOf ps)).latXlat) ↔
      hasExecLatency (lastOf ps) = true := by
    change (flagsOf (lastOf ps) &&& _ = _ ∧ _) ↔ _
    rw [flagsOf_and_latencies]
    unfold hasExecLatency
    cases ht : lastOf ps .latTotal with
    | none => simp
    | some total =>
        cases hi : lastOf ps .latIssue with
        | none => simp
        | some issue =>
            cases hx : lastOf ps .latXlat with
            | none => simp
            | some xlat =>
                have hit := lastOf_latency_lt (.inr (.inl rfl)) hi
                have hxt := lastOf_latency_lt (.inr (.inr rfl)) hx
                have hsum : (issue + xlat).toNat = issue.toNat + xlat.toNat := by
                  rw [BitVec.toNat_add]
                  omega
                simp only [SpeSample.ofView, ht, hi, hx, Option.isSome_some, Option.getD_some,
                  true_and, ge_iff_le, BitVec.le_def, hsum, decide_eq_true_eq]
  unfold Sampler.sampleOf
  exact if_congr hiff rfl rfl

/-- The packets of a record leave nothing pending and write the sample of the record. -/
theorem foldl_record (r : SpeRecord) (w : List SpeSample) :
    r.tokens.foldl coreStep (.zero, w) = (.zero, w ++ r.sample.toList) := by
  rw [SpeRecord.tokens, List.foldl_append, foldl_packets]
  simp only [List.foldl_cons, List.foldl_nil, coreStep]
  change (if flagsOf (lastOf r.packets) &&& pcValid = 0 then _ else _) = _
  unfold SpeRecord.sample
  by_cases hpc : lastOf r.packets .pc = none
  · rw [if_pos ((flagsOf_and_pcValid _).mpr hpc), if_pos hpc]
    simp
  · rw [if_neg (mt (flagsOf_and_pcValid _).mp hpc), if_neg hpc, sampleOf_ofView]
    split_ifs <;> rfl

theorem foldl_records (records : List SpeRecord) (w : List SpeSample) :
    (records.flatMap SpeRecord.tokens).foldl coreStep (.zero, w) =
      (.zero, w ++ records.filterMap SpeRecord.sample) := by
  induction records generalizing w with
  | nil => simp
  | cons r records ih =>
      rw [List.flatMap_cons, List.foldl_append, foldl_record, ih, List.append_assoc]
      cases h : r.sample <;> simp [h]

/-- However a stream of records is cut into AUX records and drains, the sample file gets the sample
of each record with an instruction address, in order. -/
theorem spe_stream_decoded (s : Sampler) (hwin : s.kinfos ≠ []) (hpend : s.pending = .zero)
    (records : List SpeRecord) (drains : List SpeDrain)
    (hok : ∀ d ∈ drains, ∀ item ∈ d.items, item.Ok d.area)
    (hcut : (drains.flatMap fun d => d.items.flatMap DrainItem.tokens) =
      records.flatMap SpeRecord.tokens) :
    (drains.foldl Sampler.drain s).speWritten =
      s.speWritten ++ records.filterMap SpeRecord.sample := by
  have hcore := drains_core hwin hok
  rw [hcut, show s.core = (.zero, s.speWritten) from Prod.ext hpend rfl, foldl_records] at hcore
  exact congrArg Prod.snd hcore

/-- A kernel load whose end packet only comes with the next drain: both addresses are cleaned. -/
theorem spe_stream_decoded_small :
    let pc : SpePacket := .address 0 [0x40, 0x10, 0, 0, 0, 0, 0, 0xA0] rfl
    let va : SpePacket := .address 2 [0x08, 0x20, 0, 0, 0, 0, 0, 0xA0] rfl
    let area : AuxArea := ⟨fun i => [0xB0, 0x40, 0x10, 0, 0, 0, 0, 0, 0xA0,
      0xB2, 0x08, 0x20, 0, 0, 0, 0, 0, 0xA0, 0x01].getD i 0, 32⟩
    let drains : List SpeDrain := [⟨0, area, [.chunk 0 0 [.packet pc, .packet va],
      .record .throttle]⟩, ⟨1, area, [.chunk 18 auxFlagCollision [.close .finish]]⟩]
    (drains.foldl Sampler.drain Sampler.fresh.start).speWritten =
      [⟨0xFF00000000001040, 0x2008, 0, 0, 0, 0, pcValid ||| dataVaValid⟩] := by
  intro pc va area drains
  have hok : ∀ d ∈ drains, ∀ item ∈ d.items, item.Ok d.area := by
    simp only [drains, List.forall_mem_cons, List.not_mem_nil, false_implies, implies_true,
      and_true, DrainItem.Ok]
    exact ⟨⟨⟨by decide, by decide, by decide⟩, by simp⟩, by decide, by decide, by decide⟩
  have hdec := spe_stream_decoded Sampler.fresh.start (by simp [Sampler.start]) rfl
    [⟨[pc, va], .finish⟩] drains hok rfl
  rw [hdec]
  decide

end RdSpeTool
