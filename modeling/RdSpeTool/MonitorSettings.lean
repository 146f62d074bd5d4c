import RdSpeTool.OfflineAnalysis
import RdSpeTool.ThreadAttach

/-!
# Buffer sizes and file names of the monitor

`RD_BUFSIZE` and `RD_AUXBUFSIZE` reach `open_thread_locked` as page counts, `RD_NAME` as the names
of its sample files. The counts are products of an `int`, and the names pass through 128 bytes.
-/

namespace RdSpeTool

open CText Schedule

/-! ## The sizes of the buffers -/

/-- A setting is rounded down to a power of two, and its pages cover exactly that size. -/
structure BufferSized (value pageSize size pages : ℤ) : Prop where
  parsed : ParsesTo value size
  rounded : IsRounded value size
  exact : pages = size * 2 ^ 20 / pageSize
  power : ∃ k : ℕ, pages = 2 ^ k

theorem BufferSized.nonneg {value pageSize size pages : ℤ}
    (h : BufferSized value pageSize size pages) : 0 ≤ value := by
  by_contra hneg
  have hzero := parsesTo_of_neg (by omega) h.parsed
  obtain ⟨⟨⟨k, hk⟩, -⟩, -⟩ := h.rounded
  have hpos : (0 : ℤ) < 2 ^ k := by positivity
  omega

/-- From 2 GiB on the pages are not positive. -/
theorem BufferSized.small {value pageSize size : ℤ} (hpage : 0 < pageSize)
    (h : BufferSized value pageSize size (bufferPages size pageSize)) : value < 2 ^ 11 := by
  by_contra hlarge
  obtain ⟨k, hk, rfl⟩ := h.rounded.exists_pow (n := 11) (le_max_of_le_left (by omega))
  have hnonpos := bufferPages_nonpos hk hpage
  obtain ⟨j, hj⟩ := h.power
  have hpos : (0 : ℤ) < 2 ^ j := by positivity
  omega

theorem exists_bufferSized {value : ℤ} (h : 0 ≤ value ∧ value < 2 ^ 11) {p : ℕ} (hp : p ≤ 20) :
    ∃ size, BufferSized value (2 ^ p) size (bufferPages size (2 ^ p)) := by
  obtain ⟨k, hlo, hhi⟩ := exists_pow_le value
  have hk : k < 11 := by
    have hlt : (2 : ℤ) ^ k < 2 ^ 11 := hlo.trans_lt (max_lt h.2 (by decide))
    exact (pow_lt_pow_iff_right₀ (by decide)).mp hlt
  have hparsed : ParsesTo value (2 ^ k) := by
    by_cases hzero : value = 0
    · subst hzero
      obtain rfl : k = 0 := by
        by_contra hne
        have htwo : (2 : ℤ) ^ 1 ≤ 2 ^ k := pow_le_pow_right₀ (by decide) (by omega)
        exact absurd (htwo.trans hlo) (by decide)
      exact parsesTo_zero
    · rw [max_eq_left (by omega)] at hlo hhi
      exact parsesTo_pow (by omega) hlo hhi
  have hpages := bufferPages_pow hk hp
  refine ⟨2 ^ k, hparsed, isRounded_pow hlo hhi, ?_, _, hpages⟩
  have hsplit : (2 : ℤ) ^ k * 2 ^ 20 = 2 ^ (k + 20 - p) * 2 ^ p := by
    rw [← pow_add, ← pow_add, Nat.sub_add_cancel (by omega)]
  rw [hpages, hsplit, Int.mul_ediv_cancel _ (by positivity)]

/-- Both settings of a monitor are handled as they should exactly from 0 to 2047. -/
theorem buffer_sizes_iff (cfg : AttachCfg) (ring aux : ℤ) (p : ℕ) (hp : p ≤ 20)
    (hpage : cfg.pageSize = 2 ^ p) :
    (∃ ringbufsize auxbufsize,
      BufferSized ring cfg.pageSize ringbufsize
        { cfg with ringbufsize := ringbufsize, auxbufsize := auxbufsize }.ringBufferPages ∧
      BufferSized aux cfg.pageSize auxbufsize
        { cfg with ringbufsize := ringbufsize, auxbufsize := auxbufsize }.auxBufferPages) ↔
      (0 ≤ ring ∧ ring < 2 ^ 11) ∧ 0 ≤ aux ∧ aux < 2 ^ 11 := by
  have hpos : 0 < cfg.pageSize := by
    rw [hpage]
    positivity
  constructor
  · rintro ⟨ringbufsize, auxbufsize, hring, haux⟩
    exact ⟨⟨hring.nonneg, hring.small hpos⟩, haux.nonneg, haux.small hpos⟩
  · rintro ⟨hring, haux⟩
    obtain ⟨ringbufsize, hringSized⟩ := exists_bufferSized hring hp
    obtain ⟨auxbufsize, hauxSized⟩ := exists_bufferSized haux hp
    rw [← hpage] at hringSized hauxSized
    exact ⟨ringbufsize, auxbufsize, hringSized, hauxSized⟩

def oneSampler (name : List Char) : AttachCfg := ⟨0, [['r']], 1, 1, 4096, name, true⟩

theorem buffer_sizes_iff_small : ∃ ringbufsize auxbufsize,
    BufferSized 2047 4096 ringbufsize
      { oneSampler [] with ringbufsize := ringbufsize, auxbufsize := auxbufsize }.ringBufferPages ∧
    BufferSized 0 4096 auxbufsize
      { oneSampler [] with
        ringbufsize := ringbufsize, auxbufsize := auxbufsize }.auxBufferPages :=
  (buffer_sizes_iff (oneSampler []) 2047 0 12 (by decide) rfl).mpr (by decide)

/-- 2 GiB are `-2 ^ 19` pages, a negative setting gives size 0, and from `2 ^ 30` on the loop does
not end. -/
theorem buffer_pages_overflow :
    (ParsesTo 2048 2048 ∧ bufferPages 2048 4096 = -524288 ∧
      ¬ ∃ size, BufferSized 2048 4096 size (bufferPages size 4096)) ∧
    (ParsesTo (-1) 0 ∧ ¬ ∃ size, BufferSized (-1) 4096 size (bufferPages size 4096)) ∧
      ∀ size, ¬ ParsesTo (2 ^ 30) size := by
  refine ⟨⟨?_, by decide, ?_⟩, ⟨⟨0, rfl⟩, ?_⟩, fun size => not_parsesTo_of_le le_rfl⟩
  · exact parsesTo_pow (k := 11) (by decide) (by decide) (by decide)
  · rintro ⟨size, hsized⟩
    exact absurd (hsized.small (by decide)) (by decide)
  · rintro ⟨size, hsized⟩
    exact absurd hsized.nonneg (by decide)

/-! ## The names of the sample files -/

def samplePath (name : Text) (tid sampler : ℕ) : Text :=
  name ++ ".t".toList ++ integer false tid ++ ".sample".toList ++ numeral false sampler

/-- The name of the `.info` file; its buffer has 128 bytes too. -/
def infoPath (name : Text) : Text := (name ++ ".info".toList).take 127

def NameFits (name : Text) (id : ℕ × ℕ) : Prop :=
  name.length + (Nat.toDigits 10 id.1).length + (Nat.toDigits 10 id.2).length ≤ 118

/-- The files of two samplers are told apart, and the threads are read back from them. -/
structure SamplesApart (name : Text) (a b : ℕ × ℕ) (pathA pathB : Text) : Prop where
  distinct : pathA ≠ pathB
  whole : pathA = samplePath name a.1 a.2 ∧ pathB = samplePath name b.1 b.2
  threads : tidFromSamplePath pathA = some a.1 ∧ tidFromSamplePath pathB = some b.1

theorem integer_natCast (n : ℕ) : integer false n = Nat.toDigits 10 n :=
  if_neg (by omega)

theorem writerName_eq (cfg : AttachCfg) (tid sampler : ℕ) :
    cfg.writerName tid sampler = (samplePath cfg.nameprefix tid sampler).take 127 := by
  have htid : (toString (tid : ℤ)).toList = Nat.toDigits 10 tid := by
    change (toString tid).toList = _
    rw [Nat.toString_eq_ofList_toDigits, String.toList_ofList]
  have hsampler : (toString sampler).toList = numeral false sampler := by
    rw [Nat.toString_eq_ofList_toDigits, String.toList_ofList]
    rfl
  unfold AttachCfg.writerName samplePath
  rw [htid, hsampler, integer_natCast]

theorem length_samplePath (name : Text) (tid sampler : ℕ) : (samplePath name tid sampler).length =
    name.length + (Nat.toDigits 10 tid).length + (Nat.toDigits 10 sampler).length + 9 := by
  unfold samplePath
  rw [integer_natCast]
  simp only [List.length_append, numeral, Bool.false_eq_true, if_false]
  have ht : ".t".toList.length = 2 := rfl
  have hs : ".sample".toList.length = 7 := rfl
  omega

/-- A name is whole exactly when it fits. -/
theorem writerName_eq_samplePath_iff (cfg : AttachCfg) (id : ℕ × ℕ) :
    cfg.writerName id.1 id.2 = samplePath cfg.nameprefix id.1 id.2 ↔
      NameFits cfg.nameprefix id := by
  rw [writerName_eq, List.take_eq_self_iff, length_samplePath, NameFits]
  omega

/-- From 127 bytes on all samplers and the `.info` file share one name. -/
theorem writerName_of_long (cfg : AttachCfg) (h : 127 ≤ cfg.nameprefix.length) (tid sampler : ℕ) :
    cfg.writerName tid sampler = infoPath cfg.nameprefix := by
  rw [writerName_eq, infoPath, List.take_append_of_le_length h, samplePath]
  simp only [List.append_assoc]
  exact List.take_append_of_le_length h

theorem tidFromSamplePath_samplePath {name : Text} {id : ℕ × ℕ} (hfits : NameFits name id) :
    tidFromSamplePath (samplePath name id.1 id.2) = some id.1 := by
  have hlt : (samplePath name id.1 id.2).length < 128 := by
    have hlen := length_samplePath name id.1 id.2
    unfold NameFits at hfits
    omega
  have htid := @tidFromSamplePath_sampleFileName name id.1 id.2 (Int.natCast_nonneg _) hlt
  have hwhole : sampleFileName name id.1 id.2 = samplePath name id.1 id.2 :=
    List.take_of_length_le (Nat.le_of_lt_succ hlt)
  rw [← hwhole]
  exact htid

/-- Whole names tell samplers apart. -/
theorem samplePath_inj {name : Text} {a b : ℕ × ℕ} (hfitsA : NameFits name a)
    (hfitsB : NameFits name b)
    (h : samplePath name a.1 a.2 = samplePath name b.1 b.2) : a = b := by
  have htid : a.1 = b.1 := by
    have hsome := tidFromSamplePath_samplePath hfitsA
    rw [h, tidFromSamplePath_samplePath hfitsB] at hsome
    exact (Option.some.inj hsome).symm
  have hdigits : Nat.toDigits 10 a.2 = Nat.toDigits 10 b.2 := by
    unfold samplePath at h
    rw [htid] at h
    exact List.append_cancel_left h
  have hsampler : a.2 = b.2 := by
    rw [← Nat.ofDigitChars_ten_toDigits (n := a.2), hdigits, Nat.ofDigitChars_ten_toDigits]
  exact Prod.ext htid hsampler

/-! ## The files a monitor opens -/

namespace Attempt

variable {cfg : AttachCfg} {env : AttachEnv} {tid : ℤ}

/-- The loop over the samplers leaves the writers alone. -/
theorem openSlots_writers (k : ℕ) (left : List ℕ) (a : Attempt) :
    (openSlots cfg env tid k left a).2.thread.writers = a.thread.writers := by
  induction left generalizing k a with
  | nil => rfl
  | cons fd left ih =>
      rw [openSlots]
      rcases mapBuffers cfg env tid k fd a.nextSlotId with ⟨maps, e | slot⟩
      · rfl
      · dsimp only
        split_ifs
        · rfl
        · rw [ih]

/-- The writers are opened once, with the names of the samplers. -/
def Named (cfg : AttachCfg) (tid : ℤ) (writers : List Text) : Prop :=
  writers = [] ∨ writers = (List.range cfg.numSamplers).map (cfg.writerName tid)

theorem openSamplers_named {a : Attempt} (h : Named cfg tid a.thread.writers) :
    Named cfg tid (openSamplers cfg env tid a).2.thread.writers := by
  have hopened : Named cfg tid (if a.thread.writers = [] then
      (List.range cfg.numSamplers).map (cfg.writerName tid) else a.thread.writers) := by
    split_ifs
    · exact .inr rfl
    · exact h
  unfold openSamplers
  by_cases hmismatch : a.thread.writers ≠ [] ∧ a.thread.writers.length ≠ cfg.numSamplers
  · rw [if_pos hmismatch]
    exact h
  rw [if_neg hmismatch]
  rcases openFds (env.openEvent .sampler) cfg.numSamplers with ⟨fds, _ | ⟨i, e⟩⟩
  · dsimp only
    split
    all_goals
      rename_i hslots
      have hwriters := congrArg (fun r => r.2.thread.writers) hslots
      dsimp only at hwriters
      rw [openSlots_writers] at hwriters
      rw [← hwriters]
      exact hopened
  · exact hopened

theorem openThreadLocked_named {a : Attempt} (h : Named cfg tid a.thread.writers) :
    Named cfg tid (openThreadLocked cfg env tid a).2.thread.writers := by
  unfold openThreadLocked
  rcases openFds (env.openEvent .counter) cfg.numCounters with ⟨fds, _ | ⟨i, e⟩⟩
  · dsimp only
    split_ifs
    · exact h
    · exact openSamplers_named h
  · exact h

end Attempt

namespace AttachMonitor

variable {cfg : AttachCfg} {m : AttachMonitor}

theorem named_after {tid : ℤ} {a : Attempt} (h : ∀ t, Attempt.Named cfg t (m.threads t).writers)
    (ha : Attempt.Named cfg tid a.thread.writers) (t : ℤ) :
    Attempt.Named cfg t ((m.after tid a).threads t).writers := by
  by_cases hne : t = tid
  · subst hne
    simpa [AttachMonitor.after] using ha
  · simpa [AttachMonitor.after, hne] using h t

theorem named_step {st : AttachStep} {m' : AttachMonitor}
    (h : ∀ t, Attempt.Named cfg t (m.threads t).writers) (hstep : step cfg m st = some m') (t : ℤ) :
    Attempt.Named cfg t (m'.threads t).writers := by
  cases st with
  | register tid env =>
      cases hstep
      have hopen := @Attempt.openThreadLocked_named cfg env tid (m.attempt tid) (h tid)
      unfold registerThreadLocked
      dsimp only
      by_cases hactive : (m.threads tid).active = true
      · rw [if_pos hactive]
        exact h t
      rw [if_neg hactive]
      have hattempt : attempt
          { m with tids := if tid ∈ m.tids then m.tids else m.tids ++ [tid] } tid = m.attempt tid :=
        rfl
      rw [hattempt]
      revert hopen
      rcases Attempt.openThreadLocked cfg env tid (m.attempt tid) with ⟨_ | e, a⟩
      · intro hopen
        exact named_after (m := { m with tids := _ })
          (a := { a with thread := { a.thread with active := true } }) h hopen t
      · intro hopen
        exact named_after (m := { m with tids := _ }) (a := a.closeThreadLocked) h hopen t
  | unregister tid readsOk =>
      cases hstep
      unfold unregisterThreadLocked
      split_ifs
      · exact h t
      · exact named_after h (h tid) t

/-- In every reachable state a thread's files have the names of its samplers. -/
theorem writers_run {steps : List AttachStep} (h : run (step cfg) initial steps = some m) {tid : ℤ}
    {k : ℕ} {path : Text} (hpath : (m.threads tid).writers[k]? = some path) :
    path = cfg.writerName tid k := by
  have hnamed : ∀ t, Attempt.Named cfg t (m.threads t).writers :=
    run_invariant (P := fun m => ∀ t, Attempt.Named cfg t (m.threads t).writers)
      (fun _ _ _ hm hstep => named_step hm hstep) (fun _ => .inl rfl) h
  rcases hnamed tid with hnil | hnames
  · rw [hnil] at hpath
    cases hpath
  · rw [hnames, List.getElem?_map] at hpath
    obtain ⟨i, hi, rfl⟩ := Option.map_eq_some_iff.mp hpath
    obtain ⟨hlt, rfl⟩ := List.getElem?_eq_some_iff.mp hi
    rw [List.getElem_range]

end AttachMonitor

open AttachMonitor in
/-- In every state the monitor reaches, the open files of two samplers are told apart and name their
threads exactly when both names fit. -/
theorem sample_files_apart_iff (cfg : AttachCfg) (steps : List AttachStep) (m : AttachMonitor)
    (h : run (step cfg) initial steps = some m) (a b : ℕ × ℕ) (hne : a ≠ b)
    (pathA pathB : Text) (hA : (m.threads a.1).writers[a.2]? = some pathA)
    (hB : (m.threads b.1).writers[b.2]? = some pathB) :
    SamplesApart cfg.nameprefix a b pathA pathB ↔
      NameFits cfg.nameprefix a ∧ NameFits cfg.nameprefix b := by
  obtain rfl := writers_run h hA
  obtain rfl := writers_run h hB
  rw [← writerName_eq_samplePath_iff, ← writerName_eq_samplePath_iff]
  constructor
  · exact fun hapart => hapart.whole
  · rintro ⟨hwholeA, hwholeB⟩
    have hfitsA := (writerName_eq_samplePath_iff cfg a).mp hwholeA
    have hfitsB := (writerName_eq_samplePath_iff cfg b).mp hwholeB
    refine ⟨?_, ⟨hwholeA, hwholeB⟩, ?_, ?_⟩
    · rw [hwholeA, hwholeB]
      exact fun hsame => hne (samplePath_inj hfitsA hfitsB hsame)
    · rw [hwholeA]
      exact tidFromSamplePath_samplePath hfitsA
    · rw [hwholeB]
      exact tidFromSamplePath_samplePath hfitsB

def allOpens : AttachEnv where
  openEvent _ i := .ok (3 + i)
  mapScratch := none
  mapRing := fun _ => some 65536
  mapAux := fun _ => none
  epollAdd := fun _ => true

theorem twoThreads_writers (name : Text) : ∃ m,
    run (AttachMonitor.step (oneSampler name)) .initial
        [.register 12 allOpens, .register 13 allOpens] = some m ∧
      (m.threads 12).writers[0]? = some ((oneSampler name).writerName 12 0) ∧
      (m.threads 13).writers[0]? = some ((oneSampler name).writerName 13 0) := by
  with_unfolding_all exact ⟨_, rfl, rfl, rfl⟩

theorem sample_files_apart_iff_small : ∃ m pathA pathB,
    run (AttachMonitor.step (oneSampler "rd".toList)) .initial
        [.register 12 allOpens, .register 13 allOpens] = some m ∧
      (m.threads 12).writers[0]? = some pathA ∧ (m.threads 13).writers[0]? = some pathB ∧
      SamplesApart "rd".toList (12, 0) (13, 0) pathA pathB := by
  obtain ⟨m, hrun, hA, hB⟩ := twoThreads_writers "rd".toList
  refine ⟨m, _, _, hrun, hA, hB, ?_⟩
  have hiff := sample_files_apart_iff (oneSampler "rd".toList) _ m hrun (12, 0) (13, 0)
    (by decide) _ _ hA hB
  exact hiff.mpr ⟨by unfold NameFits; decide, by unfold NameFits; decide⟩

/-- With a prefix of 127 bytes two threads write the same file, which is the `.info` file too. -/
theorem sample_files_collide : ∃ m path,
    run (AttachMonitor.step (oneSampler (List.replicate 127 'a'))) .initial
        [.register 12 allOpens, .register 13 allOpens] = some m ∧
      (m.threads 12).writers[0]? = some path ∧ (m.threads 13).writers[0]? = some path ∧
      path = infoPath (List.replicate 127 'a') ∧
      ¬ SamplesApart (List.replicate 127 'a') (12, 0) (13, 0) path path := by
  obtain ⟨m, hrun, hA, hB⟩ := twoThreads_writers (List.replicate 127 'a')
  have hlong := writerName_of_long (oneSampler (List.replicate 127 'a'))
    (List.length_replicate (n := 127) (a := 'a')).ge
  rw [← Nat.cast_ofNat (n := 12), hlong] at hA
  rw [← Nat.cast_ofNat (n := 13), hlong] at hB
  exact ⟨m, _, hrun, hA, hB, rfl, fun hapart => hapart.distinct rfl⟩

end RdSpeTool
