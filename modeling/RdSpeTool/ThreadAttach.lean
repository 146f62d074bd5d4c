import RdSpeTool.BufferSizes
import RdSpeTool.ResourceLog
import RdSpeTool.Schedule

/-!
# Attaching a thread

For every thread the sampling stage opens its counters and samplers and maps a ring buffer, and for
SPE an AUX buffer, for each sampler. The attempt can fail at every call. What a failed attempt gives
back depends on who owned the last descriptor when the call failed: the thread, the local vector of
`open_thread_locked`, or the slot under construction.
-/

namespace RdSpeTool

open Schedule ResourceLog

inductive PerfResource
  | fd (n : ℕ)
  | buffer (addr bytes : ℕ)
  deriving DecidableEq

inductive EventKind
  | counter
  | sampler
  deriving DecidableEq

/-- Why an event does not open: its name has no encoding, the device type of SPE cannot be read, or
`perf_event_open` sets an `errno`. -/
inductive OpenError
  | encoding (name : List Char)
  | speType
  | errno (text : List Char)

inductive AttachError
  | openEvent (kind : EventKind) (i : ℕ) (e : OpenError)
  | writerMismatch
  | ring (sampler : ℕ)
  | aux (sampler : ℕ)
  | epoll (sampler : ℕ)

def AttachError.what : AttachError → List Char
  | openEvent _ _ (.encoding name) => "pfm_get_os_event_encoding ".toList ++ name ++ " fail".toList
  | openEvent _ _ .speType =>
      "Failed to open the file /sys/bus/event_source/devices/arm_spe_0/type".toList
  | openEvent _ i (.errno text) =>
      "perf_event_open failed [i=".toList ++ (toString i).toList ++ ", errno=".toList ++ text ++
        [']']
  | writerMismatch => "writer vector size mismatch".toList
  | ring _ => "mapping sampler ring buffer failed".toList
  | aux _ => "mapping sampler aux ring buffer failed".toList
  | epoll _ => "epoll_ctl".toList

/-- A slot in a thread's list; an absent descriptor is `-1`, an absent buffer the null pointer. -/
structure AttachSlot where
  slotId : ℕ
  tid : ℤ
  samplerIndex : ℕ
  fd : Option ℕ
  ringbuf : Option ℕ
  ringbufBytes : ℕ
  auxbuf : Option ℕ
  auxbufBytes : ℕ
  deriving DecidableEq

structure AttachThread where
  active : Bool
  counterFds : List (Option ℕ)
  writers : List (List Char)
  samplers : List AttachSlot
  deriving DecidableEq

structure AttachCfg where
  numCounters : ℕ
  samplerEvents : List (List Char)
  ringbufsize : ℤ
  auxbufsize : ℤ
  pageSize : ℤ
  nameprefix : List Char
  hasEpoll : Bool

structure AttachEnv where
  openEvent : EventKind → ℕ → Except OpenError ℕ
  mapScratch : Option ℕ
  mapRing : ℕ → Option ℕ
  mapAux : ℕ → Option ℕ
  epollAdd : ℕ → Bool

/-- An absent thread is an inactive one; a slot id leads to the thread and the place in its list. -/
structure AttachMonitor where
  tids : List ℤ
  threads : ℤ → AttachThread
  samplerSlots : ℕ → Option (ℤ × ℕ)
  nextSlotId : ℕ

structure Attempt where
  thread : AttachThread
  slots : ℕ → Option (ℤ × ℕ)
  nextSlotId : ℕ
  log : List (Entry PerfResource)

/-- `parse_arm_spe_event`; the compared length includes the terminator. -/
def parseArmSpeEvent (name : List Char) : ℕ :=
  if name = "ARM_SPE:LOAD".toList then 0x200000001
  else if name = "ARM_SPE:STORE".toList then 0x400000001
  else if name = "ARM_SPE:LOADSTORE".toList then 0x600000001
  else 0

namespace AttachCfg

variable (cfg : AttachCfg)

def numSamplers : ℕ := cfg.samplerEvents.length

def ringBufferPages : ℤ := bufferPages cfg.ringbufsize cfg.pageSize

def auxBufferPages : ℤ := bufferPages cfg.auxbufsize cfg.pageSize

/-- The ring buffer and its header page, as a `size_t`. -/
@[irreducible] def ringBytes : ℕ := ((1 + cfg.ringBufferPages) * cfg.pageSize % 2 ^ 64).toNat

@[irreducible] def auxBytes : ℕ := (cfg.auxBufferPages * cfg.pageSize % 2 ^ 64).toNat

def isSpe (k : ℕ) : Bool := parseArmSpeEvent (cfg.samplerEvents.getD k []) != 0

def hasArmSpeSamples : Bool := cfg.samplerEvents.any fun name => parseArmSpeEvent name != 0

/-- The file of a sampler; the buffer for the name holds 127 characters. -/
def writerName (tid : ℤ) (sampler : ℕ) : List Char :=
  (cfg.nameprefix ++ ".t".toList ++ (toString tid).toList ++ ".sample".toList ++
    (toString sampler).toList).take 127

end AttachCfg

/-- A map of no bytes fails. -/
def mmap (bytes : ℕ) (answer : Option ℕ) : Option ℕ := if bytes = 0 then none else answer

def openFds (answer : ℕ → Except OpenError ℕ) (n : ℕ) : List ℕ × Option (ℕ × OpenError) :=
  acquireAll answer 0 n

namespace Attempt

variable (cfg : AttachCfg) (env : AttachEnv) (tid : ℤ)

def mapBuffers (k fd id : ℕ) : List (Entry PerfResource) × Except AttachError AttachSlot :=
  match mmap cfg.ringBytes (env.mapRing k) with
  | none => ([], .error (.ring k))
  | some ring =>
      let slot : AttachSlot := ⟨id, tid, k, some fd, some ring, cfg.ringBytes, none, 0⟩
      if cfg.isSpe k = false then ([.acquire (.buffer ring cfg.ringBytes)], .ok slot)
      else
        match mmap cfg.auxBytes (env.mapAux k) with
        | none => ([.acquire (.buffer ring cfg.ringBytes)], .error (.aux k))
        | some aux =>
            ([.acquire (.buffer ring cfg.ringBytes), .acquire (.buffer aux cfg.auxBytes)],
              .ok { slot with auxbuf := some aux, auxbufBytes := cfg.auxBytes })

/-- The loop over the samplers from `k` on. The list is what is left in the local vector; an error
comes with the descriptors still there. -/
def openSlots : ℕ → List ℕ → Attempt → Option (AttachError × List ℕ) × Attempt
  | _, [], a => (none, a)
  | k, fd :: left, a =>
      let id := a.nextSlotId
      let (maps, slot) := mapBuffers cfg env tid k fd id
      let a := { a with nextSlotId := id + 1, log := a.log ++ maps }
      match slot with
      | .error e => (some (e, left), a)
      | .ok slot =>
          let a := { a with
            thread := { a.thread with samplers := a.thread.samplers ++ [slot] }
            slots := Function.update a.slots id (some (tid, a.thread.samplers.length)) }
          if cfg.hasEpoll = true ∧ env.epollAdd k = false then (some (.epoll k, left), a)
          else openSlots (k + 1) left a

/-- SPE tries the size of the ring buffer on an anonymous map and gives it back. -/
def scratch : List (Entry PerfResource) :=
  if cfg.hasArmSpeSamples then
    match mmap cfg.ringBytes env.mapScratch with
    | none => []
    | some addr =>
        [.acquire (.buffer addr cfg.ringBytes), .release (.buffer addr cfg.ringBytes)]
  else []

def openSamplers (a : Attempt) : Option AttachError × Attempt :=
  if a.thread.writers ≠ [] ∧ a.thread.writers.length ≠ cfg.numSamplers then
    (some .writerMismatch, a)
  else
    let a := { a with
      thread := { a.thread with writers :=
        if a.thread.writers = [] then (List.range cfg.numSamplers).map (cfg.writerName tid)
        else a.thread.writers }
      log := a.log ++ scratch cfg env }
    let (fds, failed) := openFds (env.openEvent .sampler) cfg.numSamplers
    let a := { a with log := a.log ++ fds.map (fun fd => .acquire (.fd fd)) }
    match failed with
    -- the vector goes out of scope outside of the block that closes what is in it
    | some (i, e) => (some (.openEvent .sampler i e), a)
    | none =>
        let a := { a with thread := { a.thread with samplers := [] } }
        match openSlots cfg env tid 0 fds a with
        | (none, a) => (none, a)
        | (some (e, left), a) =>
            (some e, { a with log := a.log ++ left.map (fun fd => .release (.fd fd)) })

def openThreadLocked (a : Attempt) : Option AttachError × Attempt :=
  let (fds, failed) := openFds (env.openEvent .counter) cfg.numCounters
  let a := { a with
    thread := { a.thread with counterFds := filled cfg.numCounters fds }
    log := a.log ++ fds.map (fun fd => .acquire (.fd fd)) }
  match failed with
  | some (i, e) => (some (.openEvent .counter i e), a)
  | none => if cfg.numSamplers = 0 then (none, a) else openSamplers cfg env tid a

end Attempt

def AttachSlot.resources (s : AttachSlot) : List PerfResource :=
  (if s.auxbufBytes = 0 then [] else (s.auxbuf.map (.buffer · s.auxbufBytes)).toList) ++
    (if s.ringbufBytes = 0 then [] else (s.ringbuf.map (.buffer · s.ringbufBytes)).toList) ++
    (s.fd.map .fd).toList

def AttachThread.resources (t : AttachThread) : List PerfResource :=
  t.samplers.flatMap AttachSlot.resources ++ t.counterFds.filterMap (Option.map .fd)

def Attempt.closeThreadLocked (a : Attempt) : Attempt where
  thread := { a.thread with active := false, counterFds := [], samplers := [] }
  slots := fun id => if id ∈ a.thread.samplers.map AttachSlot.slotId then none else a.slots id
  nextSlotId := a.nextSlotId
  log := a.log ++ a.thread.resources.map .release

namespace AttachMonitor

variable (cfg : AttachCfg) (m : AttachMonitor)

def initial : AttachMonitor := ⟨[], fun _ => ⟨false, [], [], []⟩, fun _ => none, 0⟩

def attempt (tid : ℤ) : Attempt := ⟨m.threads tid, m.samplerSlots, m.nextSlotId, []⟩

def after (tid : ℤ) (a : Attempt) : AttachMonitor :=
  { m with threads := Function.update m.threads tid a.thread, samplerSlots := a.slots
           nextSlotId := a.nextSlotId }

/-- The exception that is thrown on, the monitor, and the log of the calls. -/
def registerThreadLocked (env : AttachEnv) (tid : ℤ) :
    Option AttachError × AttachMonitor × List (Entry PerfResource) :=
  let m := { m with tids := if tid ∈ m.tids then m.tids else m.tids ++ [tid] }
  if (m.threads tid).active then (none, m, [])
  else
    match (m.attempt tid).openThreadLocked cfg env tid with
    | (none, a) =>
        (none, m.after tid { a with thread := { a.thread with active := true } }, a.log)
    | (some e, a) => (some e, m.after tid a.closeThreadLocked, a.closeThreadLocked.log)

/-- Without the counts; it throws before it closes when an event cannot be read. -/
def unregisterThreadLocked (readsOk : Bool) (tid : ℤ) : AttachMonitor :=
  if (m.threads tid).active = false ∨ readsOk = false then m
  else m.after tid (m.attempt tid).closeThreadLocked

end AttachMonitor

/-! ## What a failed attempt should leave -/

/-- Everything acquired was released exactly once, no id of the attempt leads anywhere, and the
thread is inactive and empty. -/
structure FullyReleased (m : AttachMonitor) (tid : ℤ) (m' : AttachMonitor)
    (log : List (Entry PerfResource)) : Prop where
  balanced : (acquired log).Perm (released log)
  slots : ∀ id, m.nextSlotId ≤ id → m'.samplerSlots id = none
  inactive : (m'.threads tid).active = false
  counterFds : (m'.threads tid).counterFds = []
  samplers : (m'.threads tid).samplers = []

section Conditions

variable (cfg : AttachCfg) (env : AttachEnv)

def AttachEnv.Opens (kind : EventKind) (i : ℕ) : Prop := (env.openEvent kind i).isOk = true

def AttachEnv.Maps (k : ℕ) : Prop :=
  (mmap cfg.ringBytes (env.mapRing k)).isSome = true ∧
    (cfg.isSpe k = true → (mmap cfg.auxBytes (env.mapAux k)).isSome = true)

def AttachEnv.Refuses (k : ℕ) : Prop := cfg.hasEpoll = true ∧ env.epollAdd k = false

/-- A counter or the first sampler does not open, or all samplers open and the epoll instance
refuses one before any map has failed. -/
def CleanFailure : Prop :=
  (∃ i < cfg.numCounters, ¬ env.Opens .counter i) ∨ ¬ env.Opens .sampler 0 ∨
    (∀ i < cfg.numSamplers, env.Opens .sampler i) ∧
      ∃ k < cfg.numSamplers, (∀ j ≤ k, env.Maps cfg j) ∧ env.Refuses cfg k

end Conditions

/-! ## The pieces of an attempt -/

theorem openFds_cases (answer : ℕ → Except OpenError ℕ) (n : ℕ) :
    ((openFds answer n).2 = none ∧ (openFds answer n).1.length = n ∧
      ∀ j < n, (answer j).isOk = true) ∨
    ∃ j < n, ∃ e, (openFds answer n).2 = some (j, e) ∧ (openFds answer n).1.length = j ∧
      answer j = .error e ∧ ∀ q < j, (answer q).isOk = true := by
  have hcases := acquireAll_cases answer 0 n
  simp only [Nat.zero_add] at hcases
  exact hcases

theorem AttachEnv.not_opens {env : AttachEnv} {kind : EventKind} {i : ℕ} {e : OpenError}
    (h : env.openEvent kind i = .error e) : ¬ env.Opens kind i := by
  unfold AttachEnv.Opens
  rw [h]
  exact Bool.false_ne_true

namespace Attempt

variable {cfg : AttachCfg} {env : AttachEnv} {tid : ℤ}

theorem mmap_bytes {bytes addr : ℕ} {answer : Option ℕ} (h : mmap bytes answer = some addr) :
    bytes ≠ 0 := by
  rintro rfl
  cases h

/-- A slot whose maps succeed owns them and its descriptor; otherwise nobody owns what was
mapped. -/
theorem mapBuffers_cases (cfg : AttachCfg) (env : AttachEnv) (tid : ℤ) (k fd id : ℕ) :
    (∃ (rs : List PerfResource) (slot : AttachSlot), mapBuffers cfg env tid k fd id =
        (rs.map .acquire, .ok slot) ∧ slot.slotId = id ∧ slot.resources.Perm (.fd fd :: rs) ∧
        env.Maps cfg k) ∨
    ∃ (rs : List PerfResource) (e : AttachError), mapBuffers cfg env tid k fd id =
      (rs.map .acquire, .error e) ∧ ¬ env.Maps cfg k := by
  unfold mapBuffers AttachEnv.Maps
  cases hring : mmap cfg.ringBytes (env.mapRing k) with
  | none => exact .inr ⟨[], .ring k, by simp, by simp⟩
  | some ring =>
      have hbytes := mmap_bytes hring
      by_cases hspe : cfg.isSpe k = false
      · refine .inl ⟨[.buffer ring cfg.ringBytes], ⟨id, tid, k, some fd, some ring, cfg.ringBytes,
          none, 0⟩, by simp [hspe], rfl, ?_, by simp [hspe]⟩
        simpa [AttachSlot.resources, hbytes] using List.Perm.swap _ _ _
      · have hspe' : cfg.isSpe k = true := by simpa using hspe
        cases haux : mmap cfg.auxBytes (env.mapAux k) with
        | none =>
            exact .inr ⟨[.buffer ring cfg.ringBytes], .aux k, by simp [hspe], by simp [hspe']⟩
        | some aux =>
            refine .inl ⟨[.buffer ring cfg.ringBytes, .buffer aux cfg.auxBytes],
              ⟨id, tid, k, some fd, some ring, cfg.ringBytes, some aux, cfg.auxBytes⟩,
              by simp [hspe], rfl, ?_, by simp⟩
            have hauxBytes := mmap_bytes haux
            simp only [AttachSlot.resources, hbytes, hauxBytes, if_false, Option.map_some,
              Option.toList_some, List.cons_append, List.nil_append]
            exact (List.reverse_perm [PerfResource.fd fd, .buffer ring cfg.ringBytes,
              .buffer aux cfg.auxBytes])

/-- Between the calls of an attempt that began at slot id `n`: what was acquired and is not owned by
the thread is `held`. -/
structure Tracks (cfg : AttachCfg) (n : ℕ) (held : List PerfResource) (a : Attempt) : Prop where
  owned : Holds a.log (held ++ a.thread.resources)
  listed : ∀ id, n ≤ id → a.slots id ≠ none → id ∈ a.thread.samplers.map AttachSlot.slotId
  fresh : ∀ id, a.nextSlotId ≤ id → a.slots id = none
  writers : a.thread.writers = [] ∨ a.thread.writers.length = cfg.numSamplers

variable {n k fd : ℕ} {left : List ℕ} {a : Attempt}

/-- Growing the log and the held list together. -/
theorem Tracks.acquire {held : List PerfResource} (h : Tracks cfg n held a)
    (rs : List PerfResource) :
    Tracks cfg n (held ++ rs) { a with log := a.log ++ rs.map .acquire } where
  owned := by
    refine (h.owned.acquire rs).perm ?_
    rw [List.append_assoc, List.append_assoc]
    exact List.perm_append_comm.append_left held
  listed := h.listed
  fresh := h.fresh
  writers := h.writers

theorem Tracks.release {held rs : List PerfResource} (h : Tracks cfg n (rs ++ held) a) :
    Tracks cfg n held { a with log := a.log ++ rs.map .release } where
  owned := by
    have howned := h.owned
    rw [List.append_assoc] at howned
    exact howned.release
  listed := h.listed
  fresh := h.fresh
  writers := h.writers

theorem Tracks.perm {held held' : List PerfResource} (h : Tracks cfg n held a)
    (hp : held.Perm held') : Tracks cfg n held' a where
  owned := h.owned.perm (hp.append_right _)
  listed := h.listed
  fresh := h.fresh
  writers := h.writers

/-- A slot id that is never used. -/
theorem Tracks.skip {held : List PerfResource} (h : Tracks cfg n held a) :
    Tracks cfg n held { a with nextSlotId := a.nextSlotId + 1 } where
  owned := h.owned
  listed := h.listed
  fresh := fun id hle => h.fresh id (Nat.le_of_succ_le hle)
  writers := h.writers

/-- A finished slot moves what it holds to the thread. -/
theorem Tracks.push {held : List PerfResource} {slot : AttachSlot} {v : ℤ × ℕ}
    (h : Tracks cfg n (held ++ slot.resources) a) (hid : slot.slotId = a.nextSlotId) :
    Tracks cfg n held { a with
      thread := { a.thread with samplers := a.thread.samplers ++ [slot] }
      slots := Function.update a.slots a.nextSlotId (some v)
      nextSlotId := a.nextSlotId + 1 } where
  owned := by
    refine h.owned.perm ?_
    unfold AttachThread.resources
    rw [List.append_assoc, List.flatMap_append, List.flatMap_singleton]
    refine List.Perm.append_left held ?_
    rw [← List.append_assoc]
    exact List.perm_append_comm.append_right _
  listed := by
    intro id hn hsome
    rw [List.map_append, List.mem_append]
    by_cases hnew : id = a.nextSlotId
    · right
      rw [hnew, ← hid]
      exact List.mem_singleton_self _
    · dsimp only at hsome
      rw [Function.update_of_ne hnew] at hsome
      exact .inl (h.listed id hn hsome)
  fresh := by
    intro id hle
    have hnew : id ≠ a.nextSlotId := by
      rintro rfl
      exact absurd hle (by simp)
    dsimp only
    rw [Function.update_of_ne hnew]
    exact h.fresh id (Nat.le_of_succ_le hle)
  writers := h.writers

/-- One sampler: its maps fail, the epoll instance refuses it, or the loop goes on. -/
theorem openSlots_cons (env : AttachEnv) (tid : ℤ) (k : ℕ)
    (h : Tracks cfg n (.fd fd :: left.map .fd) a) :
    (∃ e lost a', openSlots cfg env tid k (fd :: left) a = (some (e, left), a') ∧ lost ≠ [] ∧
      Tracks cfg n (left.map .fd ++ lost) a' ∧ ¬ env.Maps cfg k) ∨
    ∃ a', Tracks cfg n (left.map .fd) a' ∧ env.Maps cfg k ∧
      (openSlots cfg env tid k (fd :: left) a = (some (.epoll k, left), a') ∧ env.Refuses cfg k ∨
        openSlots cfg env tid k (fd :: left) a = openSlots cfg env tid (k + 1) left a' ∧
          ¬ env.Refuses cfg k) := by
  rw [openSlots]
  obtain ⟨rs, slot, hmap, hid, hres, hmaps⟩ | ⟨rs, e, hmap, hmaps⟩ :=
    mapBuffers_cases cfg env tid k fd a.nextSlotId
  · right
    rw [hmap]
    dsimp only
    have hall : Tracks cfg n (left.map .fd ++ slot.resources)
        { a with log := a.log ++ rs.map .acquire } := by
      refine (h.acquire rs).perm ?_
      refine List.Perm.trans ?_ (hres.symm.append_left _)
      exact (List.perm_middle (a := PerfResource.fd fd)).symm
    have hpush := hall.push (v := (tid, a.thread.samplers.length)) hid
    by_cases hrefuse : cfg.hasEpoll = true ∧ env.epollAdd k = false
    · rw [if_pos hrefuse]
      exact ⟨_, hpush, hmaps, .inl ⟨rfl, hrefuse⟩⟩
    · rw [if_neg hrefuse]
      exact ⟨_, hpush, hmaps, .inr ⟨rfl, hrefuse⟩⟩
  · left
    rw [hmap]
    dsimp only
    refine ⟨e, .fd fd :: rs, _, rfl, List.cons_ne_nil _ _, ?_, hmaps⟩
    exact ((h.acquire rs).perm List.perm_middle.symm).skip

/-- A refused sampler is a later one if the first is taken. -/
theorem refuses_succ (hmaps : env.Maps cfg k) (hrefuse : ¬ env.Refuses cfg k) :
    (∃ j < n + 1, (∀ i ≤ j, env.Maps cfg (k + i)) ∧ env.Refuses cfg (k + j)) ↔
      ∃ j < n, (∀ i ≤ j, env.Maps cfg (k + 1 + i)) ∧ env.Refuses cfg (k + 1 + j) := by
  have hidx : ∀ j, k + 1 + j = k + (j + 1) := fun j => by omega
  simp only [hidx]
  constructor
  · rintro ⟨j, hj, hall, hbad⟩
    cases j with
    | zero => exact absurd hbad hrefuse
    | succ j =>
        exact ⟨j, Nat.lt_of_succ_lt_succ hj, fun i hi => hall (i + 1) (Nat.succ_le_succ hi), hbad⟩
  · rintro ⟨j, hj, hall, hbad⟩
    refine ⟨j + 1, Nat.succ_lt_succ hj, ?_, hbad⟩
    intro i hi
    cases i with
    | zero => exact hmaps
    | succ i => exact hall i (Nat.le_of_succ_le_succ hi)

/-- The loop ends with everything at the thread, or with an error; then the thread and the vector
own everything exactly when an epoll instance refused a sampler before a map failed. -/
theorem openSlots_cases (env : AttachEnv) (tid : ℤ) (k : ℕ) (h : Tracks cfg n (left.map .fd) a) :
    (∃ a', openSlots cfg env tid k left a = (none, a') ∧ Tracks cfg n [] a') ∨
    ∃ e rest a' lost, openSlots cfg env tid k left a = (some (e, rest), a') ∧
      Tracks cfg n (rest.map .fd ++ lost) a' ∧
      (lost = [] ↔ ∃ j < left.length, (∀ i ≤ j, env.Maps cfg (k + i)) ∧
        env.Refuses cfg (k + j)) := by
  induction left generalizing k a with
  | nil => exact .inl ⟨a, rfl, h⟩
  | cons fd left ih =>
      obtain ⟨e, lost, a', heq, hlost, htracks, hmaps⟩ | ⟨a', htracks, hmaps, hrest⟩ :=
        openSlots_cons env tid k h
      · refine .inr ⟨e, left, a', lost, heq, htracks, fun hnil => absurd hnil hlost, ?_⟩
        rintro ⟨j, -, hall, -⟩
        exact absurd (hall 0 (Nat.zero_le j)) hmaps
      obtain ⟨heq, hrefuse⟩ | ⟨heq, hrefuse⟩ := hrest
      · refine .inr ⟨.epoll k, left, a', [], heq, by simpa using htracks, fun _ => ?_, fun _ => rfl⟩
        refine ⟨0, Nat.succ_pos _, ?_, hrefuse⟩
        intro i hi
        rwa [Nat.le_zero.mp hi]
      · rw [heq]
        rw [List.length_cons, refuses_succ hmaps hrefuse]
        exact ih (k + 1) htracks

theorem tracks_scratch (h : Tracks cfg n [] a) :
    Tracks cfg n [] { a with log := a.log ++ scratch cfg env } := by
  unfold scratch
  split_ifs
  · cases mmap cfg.ringBytes env.mapScratch with
    | none => simpa using h
    | some addr =>
        have hmapped := h.acquire [.buffer addr cfg.ringBytes]
        rw [List.nil_append, ← List.append_nil [_]] at hmapped
        have hboth := hmapped.release
        simpa using hboth
  · simpa using h

/-- The samplers, from a thread without any. -/
theorem openSamplers_cases (env : AttachEnv) (tid : ℤ) (h : Tracks cfg n [] a)
    (hempty : a.thread.samplers = []) (hpos : cfg.numSamplers ≠ 0) :
    (∃ a', openSamplers cfg env tid a = (none, a') ∧ Tracks cfg n [] a') ∨
    ∃ e a' lost, openSamplers cfg env tid a = (some e, a') ∧ Tracks cfg n lost a' ∧
      (lost = [] ↔ ¬ env.Opens .sampler 0 ∨ (∀ i < cfg.numSamplers, env.Opens .sampler i) ∧
        ∃ k < cfg.numSamplers, (∀ j ≤ k, env.Maps cfg j) ∧ env.Refuses cfg k) := by
  have hwriters : ¬ (a.thread.writers ≠ [] ∧ a.thread.writers.length ≠ cfg.numSamplers) := by
    rintro ⟨hne, hlen⟩
    exact h.writers.elim hne hlen
  unfold openSamplers
  rw [if_neg hwriters]
  dsimp only
  rw [← hempty]
  generalize hw : (if a.thread.writers = [] then (List.range cfg.numSamplers).map
    (cfg.writerName tid) else a.thread.writers) = writers
  have hnamed : Tracks cfg n []
      { a with thread := { a.thread with writers := writers }, log := a.log ++ scratch cfg env } := by
    refine ⟨(tracks_scratch h).owned, h.listed, h.fresh, .inr ?_⟩
    rw [← hw]
    split_ifs with hnone
    · simp
    · exact h.writers.resolve_left hnone
  have hopened := hnamed.acquire ((openFds (env.openEvent .sampler) cfg.numSamplers).1.map .fd)
  simp only [List.nil_append, List.map_map, Function.comp_def] at hopened
  obtain ⟨hnone, hlen, hok⟩ | ⟨i, hi, e, hsome, hlen, hbad, hok⟩ :=
    openFds_cases (env.openEvent .sampler) cfg.numSamplers
  · rw [hnone]
    dsimp only
    obtain ⟨a', heq, htracks⟩ | ⟨e, rest, a', lost, heq, htracks, hiff⟩ :=
      openSlots_cases env tid 0 hopened
    · rw [heq]
      exact .inl ⟨a', rfl, htracks⟩
    · rw [heq]
      have hclosed := htracks.release
      rw [List.map_map] at hclosed
      refine .inr ⟨e, _, lost, rfl, hclosed, ?_⟩
      simp only [Nat.zero_add, hlen] at hiff
      rw [hiff]
      constructor
      · intro hrefused
        exact .inr ⟨hok, hrefused⟩
      · rintro (hfirst | ⟨-, hrefused⟩)
        · exact absurd (hok 0 (Nat.pos_of_ne_zero hpos)) hfirst
        · exact hrefused
  · rw [hsome]
    refine .inr ⟨_, _, _, rfl, hopened, ?_⟩
    rw [List.map_eq_nil_iff, ← List.length_eq_zero_iff, hlen]
    constructor
    · rintro rfl
      exact .inl (AttachEnv.not_opens hbad)
    · rintro (hfirst | ⟨hall, -⟩)
      · by_contra hpos
        exact hfirst (hok 0 (Nat.pos_of_ne_zero hpos))
      · exact absurd (hall i hi) (AttachEnv.not_opens hbad)

/-- A whole attempt on a thread that owns nothing. -/
theorem openThreadLocked_cases (env : AttachEnv) (tid : ℤ) (h : Tracks cfg n [] a)
    (hcounters : a.thread.counterFds = []) (hempty : a.thread.samplers = []) :
    (∃ a', openThreadLocked cfg env tid a = (none, a') ∧ Tracks cfg n [] a') ∨
    ∃ e a' lost, openThreadLocked cfg env tid a = (some e, a') ∧ Tracks cfg n lost a' ∧
      (lost = [] ↔ CleanFailure cfg env) := by
  unfold openThreadLocked
  dsimp only
  have hopened : Tracks cfg n [] { a with
      thread := { a.thread with
        counterFds := filled cfg.numCounters
          (openFds (env.openEvent .counter) cfg.numCounters).1 }
      log := a.log ++ (openFds (env.openEvent .counter) cfg.numCounters).1.map
        (fun fd => .acquire (.fd fd)) } := by
    have hacquired := h.acquire ((openFds (env.openEvent .counter) cfg.numCounters).1.map .fd)
    refine ⟨?_, h.listed, h.fresh, h.writers⟩
    have howned := hacquired.owned
    simp only [AttachThread.resources, hempty, hcounters, List.map_map, Function.comp_def] at howned
    simpa [AttachThread.resources, hempty, filterMap_filled] using howned
  obtain ⟨hnone, -, hok⟩ | ⟨i, hi, e, hsome, -, hbad, -⟩ :=
    openFds_cases (env.openEvent .counter) cfg.numCounters
  · rw [hnone]
    dsimp only
    by_cases hzero : cfg.numSamplers = 0
    · rw [if_pos hzero]
      exact .inl ⟨_, rfl, hopened⟩
    rw [if_neg hzero]
    obtain hdone | ⟨e, a', lost, heq, htracks, hiff⟩ :=
      openSamplers_cases env tid hopened hempty hzero
    · exact .inl hdone
    · refine .inr ⟨e, a', lost, heq, htracks, ?_⟩
      have hcounter : ¬ ∃ i < cfg.numCounters, ¬ env.Opens .counter i := by
        rintro ⟨i, hi, hbad⟩
        exact hbad (hok i hi)
      rw [hiff, CleanFailure, or_iff_right hcounter]
  · rw [hsome]
    exact .inr ⟨_, _, [], rfl, hopened, fun _ => .inl ⟨i, hi, AttachEnv.not_opens hbad⟩,
      fun _ => rfl⟩

/-- Closing gives back what the thread owns. -/
theorem Tracks.close {held : List PerfResource} (h : Tracks cfg n held a) :
    Tracks cfg n held a.closeThreadLocked ∧ ∀ id, n ≤ id → a.closeThreadLocked.slots id = none := by
  have hgone : ∀ id, a.closeThreadLocked.slots id ≠ none →
      id ∉ a.thread.samplers.map AttachSlot.slotId ∧ a.slots id ≠ none := by
    intro id hne
    unfold closeThreadLocked at hne
    dsimp only at hne
    split_ifs at hne with hmem
    · exact absurd rfl hne
    · exact ⟨hmem, hne⟩
  have hslots : ∀ id, n ≤ id → a.closeThreadLocked.slots id = none := by
    intro id hle
    by_contra hne
    obtain ⟨hout, hsome⟩ := hgone id hne
    exact hout (h.listed id hle hsome)
  refine ⟨⟨?_, fun id hle hne => absurd (hslots id hle) hne, ?_, h.writers⟩, hslots⟩
  · have howned := h.owned.perm List.perm_append_comm
    have hreleased := howned.release
    simpa [closeThreadLocked, AttachThread.resources] using hreleased
  · intro id hle
    by_contra hne
    exact (hgone id hne).2 (h.fresh id hle)

end Attempt

/-! ## Runs -/

inductive AttachStep
  | register (tid : ℤ) (env : AttachEnv)
  | unregister (tid : ℤ) (readsOk : Bool)

namespace AttachMonitor

variable {cfg : AttachCfg} {m m' : AttachMonitor} {tid : ℤ}

def step (cfg : AttachCfg) (m : AttachMonitor) : AttachStep → Option AttachMonitor
  | .register tid env => some (m.registerThreadLocked cfg env tid).2.1
  | .unregister tid readsOk => some (m.unregisterThreadLocked readsOk tid)

structure WellFormed (cfg : AttachCfg) (m : AttachMonitor) : Prop where
  idle : ∀ tid, (m.threads tid).active = false →
    (m.threads tid).counterFds = [] ∧ (m.threads tid).samplers = []
  writers : ∀ tid, (m.threads tid).writers = [] ∨
    (m.threads tid).writers.length = cfg.numSamplers
  fresh : ∀ id, m.nextSlotId ≤ id → m.samplerSlots id = none

theorem wellFormed_initial : WellFormed cfg initial :=
  ⟨fun _ _ => ⟨rfl, rfl⟩, fun _ => .inl rfl, fun _ _ => rfl⟩

/-- One thread and the slots are replaced. -/
theorem WellFormed.after (h : m.WellFormed cfg) {a : Attempt}
    (hidle : a.thread.active = false → a.thread.counterFds = [] ∧ a.thread.samplers = [])
    (hwriters : a.thread.writers = [] ∨ a.thread.writers.length = cfg.numSamplers)
    (hfresh : ∀ id, a.nextSlotId ≤ id → a.slots id = none) : (m.after tid a).WellFormed cfg where
  idle := by
    intro tid'
    by_cases hne : tid' = tid
    · subst hne
      simpa [AttachMonitor.after] using hidle
    · simpa [AttachMonitor.after, hne] using h.idle tid'
  writers := by
    intro tid'
    by_cases hne : tid' = tid
    · subst hne
      simpa [AttachMonitor.after] using hwriters
    · simpa [AttachMonitor.after, hne] using h.writers tid'
  fresh := hfresh

/-- An attempt on an inactive thread starts with nothing held. -/
theorem WellFormed.tracks (h : m.WellFormed cfg) (hidle : (m.threads tid).active = false) :
    (m.attempt tid).Tracks cfg m.nextSlotId [] := by
  obtain ⟨hcounters, hsamplers⟩ := h.idle tid hidle
  refine ⟨?_, fun id hle hne => absurd (h.fresh id hle) hne, h.fresh, h.writers tid⟩
  simpa [attempt, AttachThread.resources, hcounters, hsamplers] using Holds.nil

/-- A registration does nothing, opens everything, or fails and leaves what nobody owned. -/
theorem registerThreadLocked_cases (h : m.WellFormed cfg) (env : AttachEnv) (tid : ℤ) :
    (∃ m' log, m.registerThreadLocked cfg env tid = (none, m', log) ∧ m'.WellFormed cfg) ∨
    ∃ e m' log lost, m.registerThreadLocked cfg env tid = (some e, m', log) ∧ m'.WellFormed cfg ∧
      Holds log lost ∧ (∀ id, m.nextSlotId ≤ id → m'.samplerSlots id = none) ∧
      (m'.threads tid).active = false ∧ (lost = [] ↔ CleanFailure cfg env) := by
  unfold registerThreadLocked
  dsimp only
  by_cases hactive : (m.threads tid).active = true
  · rw [if_pos hactive]
    exact .inl ⟨_, _, rfl, h.idle, h.writers, h.fresh⟩
  rw [if_neg hactive]
  have hidle : (m.threads tid).active = false := by simpa using hactive
  obtain ⟨hcounters, hsamplers⟩ := h.idle tid hidle
  have hgrown : WellFormed cfg
      { m with tids := if tid ∈ m.tids then m.tids else m.tids ++ [tid] } :=
    ⟨h.idle, h.writers, h.fresh⟩
  obtain ⟨a, heq, htracks⟩ | ⟨e, a, lost, heq, htracks, hiff⟩ :=
    Attempt.openThreadLocked_cases env tid (h.tracks hidle) hcounters hsamplers
  · left
    have hopen : Attempt.openThreadLocked cfg env tid (attempt
        { m with tids := if tid ∈ m.tids then m.tids else m.tids ++ [tid] } tid) = (none, a) := heq
    rw [hopen]
    refine ⟨_, _, rfl, hgrown.after (fun hfalse => ?_) htracks.writers htracks.fresh⟩
    cases hfalse
  · right
    have hopen : Attempt.openThreadLocked cfg env tid (attempt
        { m with tids := if tid ∈ m.tids then m.tids else m.tids ++ [tid] } tid) = (some e, a) := heq
    rw [hopen]
    obtain ⟨hclosed, hslots⟩ := htracks.close
    refine ⟨e, _, _, lost, rfl, hgrown.after (fun _ => ⟨rfl, rfl⟩) hclosed.writers hclosed.fresh,
      ?_, hslots, ?_, hiff⟩
    · simpa [Attempt.closeThreadLocked, AttachThread.resources] using hclosed.owned
    · simp [AttachMonitor.after, Attempt.closeThreadLocked]

theorem WellFormed.unregister (h : m.WellFormed cfg) (readsOk : Bool) (tid : ℤ) :
    (m.unregisterThreadLocked readsOk tid).WellFormed cfg := by
  unfold unregisterThreadLocked
  split_ifs
  · exact h
  · refine h.after (fun _ => ⟨rfl, rfl⟩) (h.writers tid) ?_
    intro id hle
    unfold Attempt.closeThreadLocked
    dsimp only
    split_ifs
    · rfl
    · exact h.fresh id hle

theorem wellFormed_run {steps : List AttachStep} (h : run (step cfg) initial steps = some m) :
    m.WellFormed cfg := by
  refine run_invariant ?_ wellFormed_initial h
  intro m st m' hm hstep
  cases st with
  | register tid env =>
      cases hstep
      obtain ⟨m', log, heq, hwell⟩ | ⟨e, m', log, lost, heq, hwell, -⟩ :=
        registerThreadLocked_cases hm env tid
      · rw [heq]
        exact hwell
      · rw [heq]
        exact hwell
  | unregister tid readsOk =>
      cases hstep
      exact hm.unregister readsOk tid

end AttachMonitor

open AttachMonitor in
/-- In every state the monitor reaches, a failed attachment gives everything back exactly when the
call that failed is the `perf_event_open` of a counter or of the first sampler, or an `epoll_ctl`. -/
theorem failed_attach_iff (cfg : AttachCfg) (steps : List AttachStep) (m : AttachMonitor)
    (h : run (step cfg) initial steps = some m) (env : AttachEnv) (tid : ℤ) (e : AttachError)
    (m' : AttachMonitor) (log : List (Entry PerfResource))
    (hfail : m.registerThreadLocked cfg env tid = (some e, m', log)) :
    FullyReleased m tid m' log ↔ CleanFailure cfg env := by
  obtain ⟨m₁, log₁, heq, -⟩ | ⟨e₁, m₁, log₁, lost, heq, hwell, hholds, hslots, hidle, hiff⟩ :=
    registerThreadLocked_cases (wellFormed_run h) env tid
  · rw [hfail] at heq
    cases heq
  rw [hfail] at heq
  cases heq
  rw [← hiff, ← hholds.settled_iff]
  obtain ⟨hcounters, hsamplers⟩ := hwell.idle tid hidle
  exact ⟨fun hreleased => hreleased.balanced,
    fun hbalanced => ⟨hbalanced, hslots, hidle, hcounters, hsamplers⟩⟩

def threeEvents : AttachCfg := ⟨2, [['r']], 1, 1, 4096, [], true⟩

def counterFails : AttachEnv where
  openEvent kind i := if kind = .counter ∧ i = 1 then .error (.errno []) else .ok (3 + i)
  mapScratch := none
  mapRing := fun _ => none
  mapAux := fun _ => none
  epollAdd := fun _ => true

def ringFails : AttachEnv where
  openEvent kind i := .ok (if kind = .counter then 3 + i else 7 + i)
  mapScratch := none
  mapRing := fun _ => none
  mapAux := fun _ => none
  epollAdd := fun _ => true

theorem failed_attach_iff_counter : ∃ e m' log,
    AttachMonitor.initial.registerThreadLocked threeEvents counterFails 12 = (some e, m', log) ∧
      acquired log = [.fd 3] ∧ FullyReleased .initial 12 m' log := by
  obtain ⟨e, m', log, heq, hacquired⟩ : ∃ e m' log,
      AttachMonitor.initial.registerThreadLocked threeEvents counterFails 12 = (some e, m', log) ∧
        acquired log = [.fd 3] := ⟨_, _, _, rfl, rfl⟩
  refine ⟨e, m', log, heq, hacquired, ?_⟩
  refine (failed_attach_iff threeEvents [] .initial rfl counterFails 12 e m' log heq).mpr ?_
  exact .inl ⟨1, by decide, by simp [AttachEnv.Opens, counterFails, Except.isOk, Except.toBool]⟩

/-- The descriptor of the sampler has left the vector and is not yet at the thread when the map
fails: nobody closes it. -/
theorem ring_failure_leaks : ∃ e m' log,
    AttachMonitor.initial.registerThreadLocked threeEvents ringFails 12 = (some e, m', log) ∧
      acquired log = [.fd 3, .fd 4, .fd 7] ∧ released log = [.fd 3, .fd 4] ∧
      ¬ FullyReleased .initial 12 m' log := by
  obtain ⟨e, m', log, heq, hacquired, hreleased⟩ : ∃ e m' log,
      AttachMonitor.initial.registerThreadLocked threeEvents ringFails 12 = (some e, m', log) ∧
        acquired log = [.fd 3, .fd 4, .fd 7] ∧ released log = [.fd 3, .fd 4] := by
    with_unfolding_all exact ⟨_, _, _, rfl, rfl, rfl⟩
  refine ⟨e, m', log, heq, hacquired, hreleased, ?_⟩
  intro hfull
  have hlength := hfull.balanced.length_eq
  rw [hacquired, hreleased] at hlength
  cases hlength

end RdSpeTool
