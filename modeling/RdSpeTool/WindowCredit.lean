import RdSpeTool.ProbeTable
import RdSpeTool.SampleDrain
import RdSpeTool.SamplerThread

/-!
# Which window a sample counts for

Outside nonstop mode, `start` and `stop` of one caller run next to the sampler thread. `start`
appends the new window before it waits for the drain of the old one, and a drain counts for the
newest window. Samples carry the window they were taken in, so that one can tell where they end up.
-/

namespace RdSpeTool

open Schedule ProbeTable

/-! ## The count of a drain -/

def Sampler.Counts (s s' : Sampler) : Prop :=
  s'.numSamples + s.written.length = s.numSamples + s'.written.length

theorem Sampler.Counts.trans {s s' s'' : Sampler} (h : s.Counts s') (h' : s'.Counts s'') :
    s.Counts s'' := by
  unfold Counts at *
  omega

theorem Sampler.decodePacket_counts (s : Sampler) (mem : ℕ → U8) (pos : ℕ) :
    s.Counts (s.decodePacket mem pos).1 := by
  have hflush : ∀ b, s.Counts (s.flushPendingSpeSampleLocked b) := by
    intro b
    unfold flushPendingSpeSampleLocked
    by_cases hpc : s.pending.flags &&& pcValid = 0
    · rw [if_pos hpc]
      rfl
    · rw [if_neg hpc, Counts]
      simp only [List.length_append, List.length_singleton]
      omega
  unfold decodePacket
  dsimp only
  split_ifs
  all_goals first | exact hflush _ | rfl

theorem decodeAux_counts (area : AuxArea) (offset size : U64) (it : ℕ) (s : Sampler) :
    s.Counts (decodeAux area offset size it s) := by
  induction it, s using decodeAux.induct area offset size with
  | case1 it s hlt pos r ih =>
      rw [decodeAux, if_pos hlt]
      exact (s.decodePacket_counts area.mem pos).trans ih
  | case2 it s hge =>
      rw [decodeAux, if_neg hge]
      rfl

theorem Sampler.addThrottle_credit (s : Sampler) :
    s.addThrottle.kinfos.map Kinfo.numSamples = s.kinfos.map Kinfo.numSamples :=
  map_modify_eq_map fun _ _ => rfl

/-- No window is credited before the end of a call. -/
theorem Sampler.processRecord_counts (s : Sampler) (area : AuxArea) (r : RingRecord) :
    s.Counts (s.processRecord area r) ∧
      (s.processRecord area r).kinfos.map Kinfo.numSamples = s.kinfos.map Kinfo.numSamples := by
  cases r with
  | sample time addr =>
      refine ⟨?_, rfl⟩
      simp only [processRecord, Counts, List.length_append, List.length_singleton]
      omega
  | throttle => exact ⟨rfl, s.addThrottle_credit⟩
  | unthrottle => exact ⟨rfl, rfl⟩
  | itraceStart => exact ⟨rfl, rfl⟩
  | other type => exact ⟨rfl, rfl⟩
  | aux offset size flags =>
      have hcollide : s.Counts (s.noteCollision flags) ∧
          (s.noteCollision flags).kinfos.map Kinfo.numSamples = s.kinfos.map Kinfo.numSamples := by
        unfold noteCollision
        split_ifs
        · exact ⟨rfl, s.addThrottle_credit⟩
        · exact ⟨rfl, rfl⟩
      obtain ⟨hcount, hkinfos⟩ := hcollide
      unfold processRecord
      dsimp only
      split_ifs
      · refine ⟨hcount.trans (decodeAux_counts area offset size 0 _), ?_⟩
        exact (congrArg (List.map Kinfo.numSamples) (decodeAux_frame ..).1).trans hkinfos
      · exact ⟨hcount, hkinfos⟩

theorem Sampler.foldl_processRecord_counts (s : Sampler) (area : AuxArea)
    (records : List RingRecord) :
    s.Counts (records.foldl (fun s r => s.processRecord area r) s) ∧
      (records.foldl (fun s r => s.processRecord area r) s).kinfos.map Kinfo.numSamples =
        s.kinfos.map Kinfo.numSamples := by
  induction records generalizing s with
  | nil => exact ⟨rfl, rfl⟩
  | cons r records ih =>
      obtain ⟨hcount, hkinfos⟩ := s.processRecord_counts area r
      obtain ⟨hcount', hkinfos'⟩ := ih (s.processRecord area r)
      exact ⟨hcount.trans hcount', hkinfos'.trans hkinfos⟩

/-- A call adds the number of samples it writes to the newest window and to no other. -/
theorem Sampler.processSamplesLocked_credit (s : Sampler) (area : AuxArea)
    (records : List RingRecord) :
    (s.processSamplesLocked area records).kinfos.map Kinfo.numSamples =
      (s.kinfos.map Kinfo.numSamples).modify (s.kinfos.length - 1)
        (· + ((s.processSamplesLocked area records).written.length - s.written.length)) := by
  unfold processSamplesLocked
  by_cases hwin : s.kinfos = []
  · simp [hwin]
  rw [if_neg hwin]
  by_cases hnil : records = []
  · rw [if_pos hnil, Nat.sub_self]
    exact (List.modify_id _ _).symm
  rw [if_neg hnil]
  obtain ⟨hcount, hkinfos⟩ := foldl_processRecord_counts { s with numSamples := 0 } area records
  have hlen := foldl_processRecord_kinfos { s with numSamples := 0 } area records
  generalize records.foldl (fun s r => s.processRecord area r) { s with numSamples := 0 } = s'
    at hcount hkinfos hlen ⊢
  have hadd : s'.written.length - s.written.length = s'.numSamples := by
    simp only [Counts] at hcount
    omega
  dsimp only at hkinfos hlen ⊢
  rw [hadd, ← hkinfos, ← hlen, updateBack]
  exact map_modify_of_comm fun _ => rfl

/-! ## Caller and sampler thread -/

inductive CallerPhase
  | idle
  | pushed
  | waited
  | running
  | disabled
  | destroyed
  deriving DecidableEq

structure TakenSample where
  slot : ℕ
  window : ℕ
  deriving DecidableEq

/-- The monitor outside nonstop mode. A kinfo is the list of the windows of the samples it was
credited with, so its `num_samples` is a length; `taken` has the windows of all samples. -/
structure Monitor where
  thread : SamplerThread
  caller : CallerPhase
  samplerDrainSem : ℕ
  kinfos : List (List ℕ)
  undrained : List TakenSample
  taken : List ℕ
  deriving DecidableEq

inductive MonitorStep
  | pushKinfo
  | semWait
  | enable
  | sample (slot : ℕ)
  | disable
  | writeDrain
  | readSamples
  | destroy
  | sampler (st : SamplerStep)
  deriving DecidableEq

namespace Monitor

def initial : Monitor := ⟨.initial, .idle, 1, [], [], []⟩

variable (m : Monitor)

def samplesOf (slot : ℕ) : List TakenSample := m.undrained.filter (·.slot = slot)

/-- `process_samples_locked` on a slot: its samples count for the newest kinfo. -/
def drainSlot (slot : ℕ) : Monitor :=
  { m with
      kinfos := m.kinfos.modify (m.kinfos.length - 1) (· ++ (m.samplesOf slot).map (·.window))
      undrained := m.undrained.filter (·.slot ≠ slot) }

def takeSample (slot : ℕ) : Monitor :=
  { m with
      undrained := m.undrained ++ [⟨slot, m.kinfos.length - 1⟩]
      taken := m.taken ++ [m.kinfos.length - 1] }

/-- What a step of the sampler thread does besides moving the thread. -/
def samplerEffect (st : SamplerStep) : Option Monitor :=
  match st, m.thread.phase with
  | .slot, .handling (.slot id :: _) => some (m.drainSlot id)
  | .drainSlot found, .draining _ (id :: _) _ =>
      if found = (m.samplesOf id).length then some (m.drainSlot id) else none
  | .finish, .draining cmd _ extra =>
      some { m with
        samplerDrainSem := m.samplerDrainSem + if cmd ≠ samplerStop ∨ extra ≠ 0 then 1 else 0 }
  | _, _ => some m

def callerStep (start next : CallerPhase) (m' : Monitor) : Option Monitor :=
  if m.caller = start then some { m' with caller := next } else none

def step : MonitorStep → Option Monitor
  | .pushKinfo => m.callerStep .idle .pushed { m with kinfos := m.kinfos ++ [[]] }
  | .semWait =>
      if 0 < m.samplerDrainSem then
        m.callerStep .pushed .waited { m with samplerDrainSem := m.samplerDrainSem - 1 }
      else none
  | .enable => m.callerStep .waited .running m
  | .sample slot => m.callerStep .running .running (m.takeSample slot)
  | .disable => m.callerStep .running .disabled m
  | .writeDrain => m.callerStep .disabled .idle { m with thread := m.thread.write samplerDrain }
  | .readSamples => some { m with thread := m.thread.write samplerDrain }
  | .destroy => m.callerStep .idle .destroyed { m with thread := m.thread.write samplerStop }
  | .sampler st =>
      (m.thread.step st).bind fun t => (m.samplerEffect st).map fun m' => { m' with thread := t }

end Monitor

def Monitor.Shows (m : Monitor) (s : Sampler) : Prop :=
  s.kinfos.map Kinfo.numSamples = m.kinfos.map List.length

/-- A call that writes the samples of a slot counts them as a drain of the slot does. -/
theorem Monitor.Shows.drainSlot {m : Monitor} {s : Sampler} (h : m.Shows s) {slot : ℕ}
    {area : AuxArea} {records : List RingRecord}
    (hwritten : (s.processSamplesLocked area records).written.length =
      s.written.length + (m.samplesOf slot).length) :
    (m.drainSlot slot).Shows (s.processSamplesLocked area records) := by
  have hlen : s.kinfos.length = m.kinfos.length := by
    simpa using congrArg List.length h
  unfold Shows
  rw [s.processSamplesLocked_credit, hwritten, Nat.add_sub_cancel_left, h, hlen]
  refine (map_modify_of_comm fun ws => ?_).symm
  rw [List.length_append, List.length_map]

/-- Every sample that was drained is counted by the kinfo of its own window. -/
def Credited (m : Monitor) : Prop :=
  ∀ k ws, m.kinfos[k]? = some ws → (∀ w ∈ ws, w = k) ∧
    ws.length + m.undrained.countP (·.window = k) = m.taken.count k

def PushedDrained (steps : List MonitorStep) : Prop :=
  ∀ a b m, steps = a ++ .pushKinfo :: b → run Monitor.step .initial a = some m → m.undrained = []

/-! ## All a step can do to the samples -/

namespace Monitor

variable {m m' : Monitor} {st : MonitorStep}

theorem callerStep_eq {start next : CallerPhase} {n : Monitor}
    (h : m.callerStep start next n = some m') : m.caller = start ∧ m' = { n with caller := next } := by
  unfold callerStep at h
  split_ifs at h with hc
  exact ⟨hc, (Option.some.inj h).symm⟩

theorem samplerEffect_cases {sst : SamplerStep} (h : m.samplerEffect sst = some m') :
    (∃ id, m' = m.drainSlot id) ∨ ∃ sem, m' = { m with samplerDrainSem := sem } := by
  unfold samplerEffect at h
  split at h
  · exact .inl ⟨_, (Option.some.inj h).symm⟩
  · split_ifs at h
    exact .inl ⟨_, (Option.some.inj h).symm⟩
  · exact .inr ⟨_, (Option.some.inj h).symm⟩
  · exact .inr ⟨_, (Option.some.inj h).symm⟩

def InWindow (m : Monitor) : Prop :=
  m.caller = .pushed ∨ m.caller = .waited ∨ m.caller = .running ∨ m.caller = .disabled

/-- What a step does to kinfos and samples: a push, a sample, the drain of a slot, or nothing. -/
theorem step_cases (h : m.step st = some m') :
    (st = .pushKinfo ∧ m'.kinfos = m.kinfos ++ [[]] ∧ m'.undrained = m.undrained ∧
        m'.taken = m.taken) ∨
      (∃ slot, m.InWindow ∧ m'.kinfos = m.kinfos ∧
        m'.undrained = (m.takeSample slot).undrained ∧ m'.taken = (m.takeSample slot).taken) ∨
      (∃ slot, m'.kinfos = (m.drainSlot slot).kinfos ∧
        m'.undrained = (m.drainSlot slot).undrained ∧ m'.taken = m.taken ∧
        m'.caller = m.caller) ∨
      (m'.kinfos = m.kinfos ∧ m'.undrained = m.undrained ∧ m'.taken = m.taken ∧
        (m'.InWindow → m.InWindow)) := by
  cases st with
  | pushKinfo =>
      obtain ⟨-, rfl⟩ := callerStep_eq h
      exact .inl ⟨rfl, rfl, rfl, rfl⟩
  | semWait =>
      unfold step at h
      split_ifs at h
      obtain ⟨hc, rfl⟩ := callerStep_eq h
      exact .inr (.inr (.inr ⟨rfl, rfl, rfl, fun _ => .inl hc⟩))
  | enable =>
      obtain ⟨hc, rfl⟩ := callerStep_eq h
      exact .inr (.inr (.inr ⟨rfl, rfl, rfl, fun _ => .inr (.inl hc)⟩))
  | sample slot =>
      obtain ⟨hc, rfl⟩ := callerStep_eq h
      exact .inr (.inl ⟨slot, .inr (.inr (.inl hc)), rfl, rfl, rfl⟩)
  | disable =>
      obtain ⟨hc, rfl⟩ := callerStep_eq h
      exact .inr (.inr (.inr ⟨rfl, rfl, rfl, fun _ => .inr (.inr (.inl hc))⟩))
  | writeDrain =>
      obtain ⟨hc, rfl⟩ := callerStep_eq h
      exact .inr (.inr (.inr ⟨rfl, rfl, rfl, fun _ => .inr (.inr (.inr hc))⟩))
  | readSamples =>
      cases h
      exact .inr (.inr (.inr ⟨rfl, rfl, rfl, fun hin => hin⟩))
  | destroy =>
      obtain ⟨hc, rfl⟩ := callerStep_eq h
      refine .inr (.inr (.inr ⟨rfl, rfl, rfl, fun hin => ?_⟩))
      simp [InWindow] at hin
  | sampler sst =>
      obtain ⟨t, -, hmap⟩ := Option.bind_eq_some_iff.mp h
      obtain ⟨n, hn, rfl⟩ := Option.map_eq_some_iff.mp hmap
      obtain ⟨id, rfl⟩ | ⟨sem, rfl⟩ := samplerEffect_cases hn
      · exact .inr (.inr (.inl ⟨id, rfl, rfl, rfl, rfl⟩))
      · exact .inr (.inr (.inr ⟨rfl, rfl, rfl, fun hin => hin⟩))

/-! ## No sample is lost -/

theorem modify_last {α : Type*} (f : α → α) (l : List α) (x : α) :
    (l ++ [x]).modify ((l ++ [x]).length - 1) f = l ++ [f x] := by
  induction l with
  | nil => rfl
  | cons a l ih =>
      simp only [List.cons_append, List.length_cons, Nat.add_sub_cancel, List.length_append,
        List.length_nil, Nat.zero_add] at ih ⊢
      rw [List.modify_succ_cons, ih]

/-- Every sample is in a buffer or in a kinfo, in some window that was opened. -/
structure Conserved (m : Monitor) : Prop where
  opened : m.InWindow → m.kinfos ≠ []
  window_lt : ∀ s ∈ m.undrained, s.window < m.kinfos.length
  count : ∀ w, m.taken.count w =
    m.undrained.countP (·.window = w) + m.kinfos.flatten.count w

theorem conserved_drainSlot (h : m.Conserved) (slot w : ℕ) :
    m.taken.count w = (m.drainSlot slot).undrained.countP (·.window = w) +
      (m.drainSlot slot).kinfos.flatten.count w := by
  have hsplit : m.undrained.countP (·.window = w) = (m.samplesOf slot).countP (·.window = w) +
      (m.undrained.filter (·.slot ≠ slot)).countP (·.window = w) := by
    simp only [samplesOf, List.countP_filter]
    rw [List.countP_eq_countP_filter_add _ _ (fun s : TakenSample => decide (s.slot = slot))]
    simp only [List.countP_filter]
    congr 2
    funext s
    by_cases hs : s.slot = slot <;> simp [hs]
  have hwindows : ((m.samplesOf slot).map (·.window)).count w =
      (m.samplesOf slot).countP (·.window = w) := by
    rw [List.count, List.countP_map]
    congr 1
  rw [h.count w, hsplit]
  obtain hnil | ⟨ks, last, hks⟩ := m.kinfos.eq_nil_or_concat
  · -- no window was opened, so there is no sample either
    have hnone : m.undrained = [] := by
      refine List.eq_nil_iff_forall_not_mem.mpr fun s hs => ?_
      have hlt := h.window_lt s hs
      simp [hnil] at hlt
    simp [drainSlot, samplesOf, hnone, hnil]
  · rw [List.concat_eq_append] at hks
    simp only [drainSlot, hks, modify_last, List.flatten_append, List.count_append,
      List.flatten_singleton, hwindows]
    omega

theorem Conserved.step (h : m.Conserved) (hstep : m.step st = some m') : m'.Conserved := by
  obtain ⟨-, hk, hu, ht⟩ | ⟨slot, hin, hk, hu, ht⟩ | ⟨slot, hk, hu, ht, hc⟩ |
    ⟨hk, hu, ht, hin⟩ := step_cases hstep
  · refine ⟨by simp [hk], fun s hs => ?_, fun w => ?_⟩
    · have hlt := h.window_lt s (hu ▸ hs)
      rw [hk, List.length_append]
      exact Nat.lt_add_right _ hlt
    · rw [ht, hu, hk, h.count w]
      simp
  · have hpos : 0 < m.kinfos.length := List.length_pos_iff.mpr (h.opened hin)
    refine ⟨fun _ => hk ▸ h.opened hin, fun s hs => ?_, fun w => ?_⟩
    · rw [hu] at hs
      rw [hk]
      rcases List.mem_append.mp hs with hs | hs
      · exact h.window_lt s hs
      · rw [List.mem_singleton.mp hs]
        dsimp only
        omega
    · rw [ht, hu, hk]
      simp only [takeSample, List.count_append, List.countP_append, h.count w]
      simp only [List.count_singleton, List.countP_singleton, beq_iff_eq, decide_eq_true_eq]
      omega
  · have hlen : m'.kinfos.length = m.kinfos.length := by rw [hk, drainSlot, List.length_modify]
    refine ⟨fun hin' => ?_, fun s hs => ?_, fun w => ?_⟩
    · have hopen : m.kinfos ≠ [] := h.opened (by simpa [InWindow, hc] using hin')
      rw [← List.length_pos_iff] at hopen ⊢
      omega
    · rw [hlen]
      rw [hu] at hs
      exact h.window_lt s (List.mem_of_mem_filter hs)
    · rw [ht, hu, hk]
      exact conserved_drainSlot h slot w
  · exact ⟨fun hin' => hk ▸ h.opened (hin hin'), hk ▸ hu ▸ h.window_lt,
      fun w => by rw [ht, hu, hk, h.count w]⟩

theorem run_conserved {steps : List MonitorStep} (h : run Monitor.step .initial steps = some m) :
    m.Conserved := by
  refine run_invariant (P := Conserved) (fun m st m' hm hstep => hm.step hstep) ?_ h
  exact ⟨by simp [InWindow, initial], by simp [initial], by simp [initial]⟩

/-! ## Samples of the newest window -/

/-- Buffered samples belong to the newest window, credited samples to the window of their kinfo. -/
structure Placed (m : Monitor) : Prop where
  newest : ∀ s ∈ m.undrained, s.window + 1 = m.kinfos.length
  own : ∀ (k : ℕ) (ws : List ℕ), m.kinfos[k]? = some ws → ∀ w ∈ ws, w = k

theorem getElem?_push {ks : List (List ℕ)} {k : ℕ} {ws : List ℕ}
    (h : (ks ++ [[]])[k]? = some ws) : ks[k]? = some ws ∨ ws = [] := by
  rw [List.getElem?_append] at h
  split_ifs at h
  · exact .inl h
  · exact .inr (List.mem_singleton.mp (List.mem_of_getElem? h))

theorem getElem?_drainSlot {slot k : ℕ} {ws : List ℕ}
    (h : (m.drainSlot slot).kinfos[k]? = some ws) : ∃ ws', m.kinfos[k]? = some ws' ∧
      ws = if k + 1 = m.kinfos.length then ws' ++ (m.samplesOf slot).map (·.window) else ws' := by
  simp only [drainSlot, List.getElem?_modify, Option.map_eq_map, Option.map_eq_some_iff] at h
  obtain ⟨ws', hws', rfl⟩ := h
  have hlt : k < m.kinfos.length := (List.getElem?_eq_some_iff.mp hws').1
  refine ⟨ws', hws', ?_⟩
  by_cases hk : k + 1 = m.kinfos.length
  · rw [if_pos hk, if_pos (by omega)]
  · rw [if_neg hk, if_neg (by omega)]

theorem Placed.step (h : m.Placed) (hc : m.Conserved) (hstep : m.step st = some m')
    (hpush : st = .pushKinfo → m.undrained = []) : m'.Placed := by
  obtain ⟨he, hk, hu, -⟩ | ⟨slot, hin, hk, hu, -⟩ | ⟨slot, hk, hu, -, -⟩ | ⟨hk, hu, -, -⟩ :=
    step_cases hstep
  · refine ⟨by simp [hu, hpush he], fun k ws hws w hw => ?_⟩
    rcases getElem?_push (hk ▸ hws) with hws | rfl
    · exact h.own k ws hws w hw
    · cases hw
  · have hpos : 0 < m.kinfos.length := List.length_pos_iff.mpr (hc.opened hin)
    refine ⟨fun s hs => ?_, hk ▸ h.own⟩
    rw [hu] at hs
    rw [hk]
    rcases List.mem_append.mp hs with hs | hs
    · exact h.newest s hs
    · rw [List.mem_singleton.mp hs]
      exact Nat.sub_add_cancel hpos
  · refine ⟨fun s hs => ?_, fun k ws hws w hw => ?_⟩
    · rw [hk, drainSlot, List.length_modify]
      rw [hu] at hs
      exact h.newest s (List.mem_of_mem_filter hs)
    · obtain ⟨ws', hws', rfl⟩ := getElem?_drainSlot (hk ▸ hws)
      split_ifs at hw with hlast
      · rcases List.mem_append.mp hw with hw | hw
        · exact h.own k ws' hws' w hw
        · obtain ⟨s, hs, rfl⟩ := List.mem_map.mp hw
          have hnew := h.newest s (List.mem_of_mem_filter hs)
          omega
      · exact h.own k ws' hws' w hw
  · exact ⟨hk ▸ hu ▸ h.newest, hk ▸ h.own⟩

/-- In kinfos that hold only their own samples, the samples of a window are those of one kinfo. -/
theorem count_flatten_of_own {ks : List (List ℕ)} {o k : ℕ} {ws : List ℕ}
    (hown : ∀ (j : ℕ) (vs : List ℕ), ks[j]? = some vs → ∀ w ∈ vs, w = o + j)
    (h : ks[k]? = some ws) : ks.flatten.count (o + k) = ws.length := by
  induction ks generalizing o k with
  | nil => simp at h
  | cons vs ks ih =>
      have hown' : ∀ (j : ℕ) (vs : List ℕ), ks[j]? = some vs → ∀ w ∈ vs, w = o + 1 + j := by
        intro j us hus w hw
        have hw' := hown (j + 1) us (by simpa using hus) w hw
        omega
      rw [List.flatten_cons, List.count_append]
      cases k with
      | zero =>
          have hvs : vs = ws := by simpa using h
          have hrest : ks.flatten.count (o + 0) = 0 := by
            refine List.count_eq_zero.mpr fun hmem => ?_
            obtain ⟨us, hus, hw⟩ := List.mem_flatten.mp hmem
            obtain ⟨j, hj⟩ := List.mem_iff_getElem?.mp hus
            have hw' := hown' j us hj _ hw
            omega
          have hall : ws.count (o + 0) = ws.length := by
            refine List.count_eq_length.mpr fun w hw => ?_
            exact (hown 0 ws (by simp [hvs]) w hw).symm
          rw [hrest, hvs, hall, Nat.add_zero]
      | succ k =>
          have hhead : vs.count (o + (k + 1)) = 0 := by
            refine List.count_eq_zero.mpr fun hmem => ?_
            have hw := hown 0 vs (by simp) _ hmem
            omega
          have hrest := ih hown' (by simpa using h)
          rw [hhead, Nat.zero_add, ← hrest]
          congr 1
          omega

theorem Placed.credited (h : m.Placed) (hc : m.Conserved) : Credited m := by
  intro k ws hws
  refine ⟨h.own k ws hws, ?_⟩
  have hown : ∀ (j : ℕ) (vs : List ℕ), m.kinfos[j]? = some vs → ∀ w ∈ vs, w = 0 + j := by
    intro j vs hvs w hw
    rw [Nat.zero_add]
    exact h.own j vs hvs w hw
  have hflat := count_flatten_of_own hown hws
  rw [Nat.zero_add] at hflat
  rw [hc.count k, hflat, Nat.add_comm]

theorem run_placed {steps : List MonitorStep} (h : run Monitor.step .initial steps = some m)
    (hpush : PushedDrained steps) : m.Placed := by
  refine run_induction (P := fun steps m => PushedDrained steps → m.Placed) ?_ ?_ h hpush
  · intro _
    exact ⟨by simp [initial], by simp [initial]⟩
  · intro as n a n' hn ih hstep hdrained
    have hpre : PushedDrained as := by
      intro p q o hsplit ho
      exact hdrained p (q ++ [a]) o (by simp [hsplit]) ho
    refine (ih hpre).step (run_conserved hn) hstep ?_
    rintro rfl
    exact hdrained as [] n rfl hn

/-! ## Samples of an older window -/

/-- A sample of an older window is left in a buffer, or counts for a later window. -/
def Misplaced (m : Monitor) : Prop :=
  (∃ s ∈ m.undrained, s.window + 1 < m.kinfos.length) ∨
    ∃ (k : ℕ) (ws : List ℕ), m.kinfos[k]? = some ws ∧ ∃ w ∈ ws, w < k

theorem misplaced_drainSlot (h : m.Misplaced) (slot : ℕ) : (m.drainSlot slot).Misplaced := by
  have hlen : (m.drainSlot slot).kinfos.length = m.kinfos.length := List.length_modify ..
  obtain ⟨s, hs, hlt⟩ | ⟨k, ws, hws, w, hw, hlt⟩ := h
  · by_cases hslot : s.slot = slot
    · -- the drain hands the sample to the newest window
      right
      obtain ⟨ws, hws⟩ : ∃ ws, m.kinfos[m.kinfos.length - 1]? = some ws :=
        ⟨_, List.getElem?_eq_getElem (by omega)⟩
      refine ⟨m.kinfos.length - 1, ws ++ (m.samplesOf slot).map (·.window), ?_, s.window, ?_, ?_⟩
      · simp [drainSlot, hws]
      · apply List.mem_append_right
        exact List.mem_map.mpr ⟨s, List.mem_filter.mpr ⟨hs, by simp [hslot]⟩, rfl⟩
      · omega
    · exact .inl ⟨s, List.mem_filter.mpr ⟨hs, by simp [hslot]⟩, hlen ▸ hlt⟩
  · right
    refine ⟨k, if m.kinfos.length - 1 = k then ws ++ (m.samplesOf slot).map (·.window) else ws,
      by simp [drainSlot, List.getElem?_modify, hws], w, ?_, hlt⟩
    split_ifs
    · exact List.mem_append_left _ hw
    · exact hw

theorem Misplaced.step (h : m.Misplaced) (hstep : m.step st = some m') : m'.Misplaced := by
  obtain ⟨-, hk, hu, -⟩ | ⟨slot, -, hk, hu, -⟩ | ⟨slot, hk, hu, -, -⟩ | ⟨hk, hu, -, -⟩ :=
    step_cases hstep
  · obtain ⟨s, hs, hlt⟩ | ⟨k, ws, hws, hlow⟩ := h
    · refine .inl ⟨s, hu ▸ hs, ?_⟩
      rw [hk, List.length_append]
      exact Nat.lt_add_right _ hlt
    · refine .inr ⟨k, ws, ?_, hlow⟩
      have hlt : k < m.kinfos.length := (List.getElem?_eq_some_iff.mp hws).1
      rw [hk, List.getElem?_append_left hlt, hws]
  · obtain ⟨s, hs, hlt⟩ | hcredit := h
    · exact .inl ⟨s, hu ▸ List.mem_append_left _ hs, hk ▸ hlt⟩
    · exact .inr (hk ▸ hcredit)
  · have hdrain := misplaced_drainSlot h slot
    unfold Misplaced at hdrain ⊢
    rwa [hk, hu]
  · unfold Misplaced at h ⊢
    rwa [hk, hu]

end Monitor

open Monitor in
/-- Whenever every window is opened with drained buffers, each drained sample counts for the window
it was taken in; a run that has drained its samples shows it. The counts are those of the sampler's
windows. -/
theorem samples_credited (steps : List MonitorStep) (m : Monitor)
    (hrun : run Monitor.step .initial steps = some m) :
    (PushedDrained steps → ∀ p, p <+: steps → ∀ n, run Monitor.step .initial p = some n →
        Credited n) ∧
      (m.undrained = [] → Credited m → PushedDrained steps) ∧
      ∀ s slot area records, m.Shows s →
        (s.processSamplesLocked area records).written.length =
          s.written.length + (m.samplesOf slot).length →
        (m.drainSlot slot).Shows (s.processSamplesLocked area records) := by
  refine ⟨?_, ?_, fun s slot area records hshows hwritten => hshows.drainSlot hwritten⟩
  · rintro hpush p ⟨rest, rfl⟩ n hn
    have hpre : PushedDrained p := by
      intro a b o hsplit ho
      exact hpush a (b ++ rest) o (by simp [hsplit]) ho
    exact (run_placed hn hpre).credited (run_conserved hn)
  · rintro hdrained hcredited a b n rfl hn
    by_contra hne
    obtain ⟨s, hs⟩ := List.exists_mem_of_ne_nil _ hne
    obtain ⟨n', hn', hrest⟩ := exists_of_run_append hrun
    obtain rfl := Option.some.inj (hn.symm.trans hn')
    obtain ⟨n2, hstep, hb⟩ := exists_of_run_cons hrest
    have hmisplaced : n2.Misplaced := by
      obtain ⟨-, rfl⟩ := callerStep_eq hstep
      refine .inl ⟨s, hs, ?_⟩
      have hlt := (run_conserved hn).window_lt s hs
      simp only [List.length_append, List.length_singleton]
      omega
    have hend : m.Misplaced :=
      run_invariant (P := Misplaced) (fun _ _ _ hm hst => hm.step hst) hmisplaced hb
    obtain ⟨s', hs', -⟩ | ⟨k, ws, hws, w, hw, hlt⟩ := hend
    · simp [hdrained] at hs'
    · exact absurd ((hcredited k ws hws).1 w hw) (Nat.ne_of_lt hlt)

def windowSteps : List MonitorStep :=
  [.pushKinfo, .semWait, .enable, .sample 0, .disable, .writeDrain]

def drainSteps : List MonitorStep :=
  [.sampler (.wake [.eventFd]), .sampler (.read [0]), .sampler (.drainSlot 1), .sampler .finish]

theorem samples_credited_small :
    PushedDrained (windowSteps ++ drainSteps ++ windowSteps ++ drainSteps) :=
  (samples_credited _ ⟨⟨0, .handling []⟩, .idle, 1, [[0], [1]], [], [0, 1]⟩ (by decide)).2.1 rfl
    (by
      intro k ws hws
      match k, hws with
      | 0, hws => cases hws; decide
      | 1, hws => cases hws; decide)

/-- The drain of the first window comes after the second kinfo was pushed and counts for it. -/
theorem sample_of_older_window : ∃ m,
    run Monitor.step .initial (windowSteps ++ [.pushKinfo] ++ drainSteps) = some m ∧
      m.kinfos = [[], [0]] ∧ ¬ Credited m := by
  refine ⟨⟨⟨0, .handling []⟩, .pushed, 1, [[], [0]], [], [0]⟩, by decide, rfl, fun h => ?_⟩
  exact absurd ((h 1 [0] rfl).1 0 (by simp)) (by decide)

end RdSpeTool
