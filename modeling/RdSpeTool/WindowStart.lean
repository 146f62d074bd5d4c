import RdSpeTool.WindowCounters

/-!
# Opening and closing windows

`Monitor::start` appends the record of a window before it looks at the tag, and `Monitor::stop`
completes the last record. A start that throws leaves its record in the list, without the array of
counters that the writer of the `.info` file reads.
-/

namespace RdSpeTool

open Schedule

structure Timespec where
  sec : ℤ
  nsec : ℤ
  deriving DecidableEq

/-- What `start` and `stop` write of a `kinfo`; an absent array is the null pointer. -/
structure WindowInfo where
  tag : List Char
  offloaded : Bool
  duration : ℚ
  clockStart : U64
  clockStop : U64
  counters : Option (List CounterData)
  deriving DecidableEq

def WindowInfo.blank : WindowInfo := ⟨[], false, 0, 0, 0, none⟩

structure WindowCfg where
  numCounters : ℕ
  numSamplers : ℕ
  hasEpoll : Bool
  hasEventFd : Bool
  samplePcPresent : Bool
  clockRes : U64

/-- `drain` is the value of the semaphore `_sampler_drain`. -/
structure WindowMonitor where
  kinfos : List WindowInfo
  drain : ℕ
  nonstopMode : Bool
  eventsEnabled : Bool
  startTime : Timespec

def WindowMonitor.initial : WindowMonitor := ⟨[], 1, false, false, ⟨0, 0⟩⟩

/-- What a start meets: whether the maps file opens, and the time, if the clock gives one. -/
structure StartEnv where
  mapsOk : Bool
  time : Option Timespec

/-- What a stop meets: the time, the write to the event fd, the counter array that
`read_counters` leaves and whether it got to its end. -/
structure StopEnv where
  time : Option Timespec
  writeOk : Bool
  readings : ℕ → CounterData
  readOk : Bool

inductive StartError
  | invalidTag (tag : List Char)
  | maps
  | clock

/-- The exception text; the buffer for a tag holds 127 characters. -/
def StartError.what : StartError → List Char
  | invalidTag tag => ("Invalid tag '".toList ++ tag ++ "'".toList).take 127
  | maps => "Cannot open /proc/self/maps".toList
  | clock => "failed clock_gettime".toList

inductive StopError
  | clock
  | write
  | read

/-- `strpbrk(tag, "=\n")` finds something. -/
def badTag (tag : List Char) : Bool := tag.any fun c => c == '=' || c == '\n'

def tagOk (tag : Option (List Char)) : Bool := !(tag.any badTag)

def mapLast (f : WindowInfo → WindowInfo) (l : List WindowInfo) : List WindowInfo :=
  l.dropLast ++ (l.getLast?.map f).toList

namespace WindowMonitor

variable (cfg : WindowCfg) (m : WindowMonitor)

/-- The start of a window: nothing while it waits for the semaphore, else what it threw, if
anything, and the state. -/
def start (tag : Option (List Char)) (offloaded : Bool) (env : StartEnv) :
    Option (Option StartError × WindowMonitor) :=
  let m := { m with kinfos := m.kinfos ++ [.blank] }
  if tagOk tag = false then some (some (.invalidTag (tag.getD [])), m)
  else
    let m := { m with kinfos := mapLast (fun k =>
      { k with tag := tag.getD ['?'], offloaded := offloaded }) m.kinfos }
    let waits := m.nonstopMode = false ∧ cfg.hasEpoll
    if waits ∧ m.drain = 0 then none
    else
      let m := if waits then { m with drain := m.drain - 1 } else m
      if cfg.samplePcPresent ∧ env.mapsOk = false then some (some .maps, m)
      else
        match env.time with
        | none => some (some .clock, m)
        | some time => some (none, { m with startTime := time, eventsEnabled := true })

def clockTicks (t : Timespec) : U64 :=
  BitVec.ofInt 64 t.sec * cfg.clockRes + BitVec.ofInt 64 t.nsec * cfg.clockRes / 1000000000

/-- The end of a window; the array is there before it is filled. -/
def stop (env : StopEnv) : Option StopError × WindowMonitor :=
  let m := if m.nonstopMode = false then { m with eventsEnabled := false } else m
  match env.time with
  | none => (some .clock, m)
  | some time =>
      if m.nonstopMode = false ∧ cfg.hasEventFd ∧ env.writeOk = false then (some .write, m)
      else
        let array := (List.range (cfg.numCounters + cfg.numSamplers)).map env.readings
        let m := { m with kinfos := mapLast (fun k => { k with
          duration := (time.sec - m.startTime.sec) + (time.nsec - m.startTime.nsec) / 10 ^ 9
          clockStart := clockTicks cfg m.startTime
          clockStop := clockTicks cfg time
          counters := some array }) m.kinfos }
        (if env.readOk then none else some .read, m)

end WindowMonitor

inductive WindowCall
  | start (tag : Option (List Char)) (offloaded : Bool) (env : StartEnv)
  | stop (env : StopEnv)
  | setNonstop
  | drained

/-- A stop without any window has no last record to write to. -/
def WindowMonitor.step (cfg : WindowCfg) (m : WindowMonitor) : WindowCall → Option WindowMonitor
  | .start tag offloaded env => (m.start cfg tag offloaded env).map Prod.snd
  | .stop env => if m.kinfos = [] then none else some (m.stop cfg env).2
  | .setNonstop => some { m with nonstopMode := true }
  | .drained => some { m with drain := m.drain + 1 }

/-! ## What a run should leave -/

/-- Every start that throws leaves the list of windows and the semaphore as they were. -/
def StartsAtomic (cfg : WindowCfg) (calls : List WindowCall) : Prop :=
  ∀ before tag offloaded env after m e m',
    calls = before ++ .start tag offloaded env :: after →
    run (WindowMonitor.step cfg) .initial before = some m →
    m.start cfg tag offloaded env = some (some e, m') → m'.kinfos = m.kinfos ∧ m'.drain = m.drain

/-- The array the writer reads is there, with an element for every counter and sampler. -/
def WindowInfo.HasCounters (cfg : WindowCfg) (k : WindowInfo) : Prop :=
  k.counters.map List.length = some (cfg.numCounters + cfg.numSamplers)

def WindowMonitor.Writable (cfg : WindowCfg) (m : WindowMonitor) : Prop :=
  ∀ k ∈ m.kinfos, k.HasCounters cfg

def StartEnv.Accepts (cfg : WindowCfg) (tag : Option (List Char)) (env : StartEnv) : Prop :=
  tagOk tag = true ∧ (cfg.samplePcPresent = true → env.mapsOk = true) ∧ env.time.isSome = true

def StopEnv.reaches (cfg : WindowCfg) (nonstop : Bool) (env : StopEnv) : Bool :=
  env.time.isSome && (nonstop || !cfg.hasEventFd || env.writeOk)

/-- Between a start and the next one, and behind the last, some stop gets to the counters. The flags
tell whether the monitor is in nonstop mode and whether a window waits for its stop. -/
def Closed (cfg : WindowCfg) : Bool → Bool → List WindowCall → Prop
  | _, waiting, [] => waiting = false
  | nonstop, waiting, .start _ _ _ :: calls => waiting = false ∧ Closed cfg nonstop true calls
  | nonstop, waiting, .stop env :: calls =>
      Closed cfg nonstop (waiting && !env.reaches cfg nonstop) calls
  | _, waiting, .setNonstop :: calls => Closed cfg true waiting calls
  | nonstop, waiting, .drained :: calls => Closed cfg nonstop waiting calls

/-! ## One call -/

theorem mapLast_concat (f : WindowInfo → WindowInfo) (l : List WindowInfo) (k : WindowInfo) :
    mapLast f (l ++ [k]) = l ++ [f k] := by
  simp [mapLast]

section Calls

variable {cfg : WindowCfg} {m m' : WindowMonitor}

/-- The part of a start behind the semaphore. -/
theorem start_finish {m₁ : WindowMonitor} {env : StartEnv} {e : Option StartError}
    (h : (if cfg.samplePcPresent = true ∧ env.mapsOk = false then
        some (some StartError.maps, m₁)
      else
        match env.time with
        | none => some (some .clock, m₁)
        | some time => some (none, { m₁ with startTime := time, eventsEnabled := true })) =
      some (e, m')) :
    m'.kinfos = m₁.kinfos ∧ m'.nonstopMode = m₁.nonstopMode ∧
      (e = none ↔ (cfg.samplePcPresent = true → env.mapsOk = true) ∧ env.time.isSome = true) := by
  split_ifs at h with hmaps
  · cases h
    exact ⟨rfl, rfl, by simp [hmaps]⟩
  · have hopen : cfg.samplePcPresent = true → env.mapsOk = true := by
      intro hpc
      by_contra hne
      exact hmaps ⟨hpc, by simpa using hne⟩
    cases htime : env.time with
    | none =>
        rw [htime] at h
        cases h
        exact ⟨rfl, rfl, by simp⟩
    | some time =>
        rw [htime] at h
        cases h
        exact ⟨rfl, rfl, fun _ => ⟨hopen, rfl⟩, fun _ => rfl⟩

/-- A start that returns at all has appended a record without counters; it throws unless it gets
through. -/
theorem start_spec {tag : Option (List Char)} {offloaded : Bool} {env : StartEnv}
    {e : Option StartError} (h : m.start cfg tag offloaded env = some (e, m')) :
    (∃ k, m'.kinfos = m.kinfos ++ [k] ∧ k.counters = none) ∧
      m'.nonstopMode = m.nonstopMode ∧ (e = none ↔ env.Accepts cfg tag) := by
  unfold WindowMonitor.start at h
  dsimp only at h
  rw [mapLast_concat] at h
  unfold StartEnv.Accepts
  by_cases htag : tagOk tag = false
  · rw [if_pos htag] at h
    cases h
    exact ⟨⟨_, rfl, rfl⟩, rfl, by simp [htag]⟩
  have hok : tagOk tag = true := by simpa using htag
  rw [if_neg htag] at h
  by_cases hblock : (m.nonstopMode = false ∧ cfg.hasEpoll = true) ∧ m.drain = 0
  · rw [if_pos hblock] at h
    cases h
  rw [if_neg hblock] at h
  obtain ⟨hkinfos, hmode, hiff⟩ := start_finish h
  rw [hkinfos, hmode, hiff]
  refine ⟨?_, ?_, by simp [hok]⟩
  · split_ifs
    · exact ⟨_, rfl, rfl⟩
    · exact ⟨_, rfl, rfl⟩
  · split_ifs <;> rfl

/-- A stop that gets to the counters completes the last record, any other leaves the list alone. -/
theorem stop_spec (cfg : WindowCfg) (m : WindowMonitor) (env : StopEnv) :
    (m.stop cfg env).2.nonstopMode = m.nonstopMode ∧
      if env.reaches cfg m.nonstopMode then
        ∃ f : WindowInfo → WindowInfo, (∀ k, (f k).HasCounters cfg) ∧
          (m.stop cfg env).2.kinfos = mapLast f m.kinfos
      else (m.stop cfg env).2.kinfos = m.kinfos := by
  have hfirst : ∀ m₁ : WindowMonitor,
      m₁ = (if m.nonstopMode = false then { m with eventsEnabled := false } else m) →
      m₁.nonstopMode = m.nonstopMode ∧ m₁.kinfos = m.kinfos := by
    rintro m₁ rfl
    split_ifs <;> exact ⟨rfl, rfl⟩
  unfold WindowMonitor.stop StopEnv.reaches
  dsimp only
  generalize hm : (if m.nonstopMode = false then { m with eventsEnabled := false } else m) = m₁
  obtain ⟨hmode, hkinfos⟩ := hfirst m₁ hm.symm
  cases env.time with
  | none => simp [hmode, hkinfos]
  | some time =>
      dsimp only
      rw [hmode]
      by_cases hwrite : m.nonstopMode = false ∧ cfg.hasEventFd = true ∧ env.writeOk = false
      · rw [if_pos hwrite]
        simp [hmode, hkinfos, hwrite]
      · rw [if_neg hwrite]
        have hreach : (m.nonstopMode || !cfg.hasEventFd || env.writeOk) = true := by
          by_contra hne
          apply hwrite
          simpa [and_assoc] using hne
        simp only [Option.isSome_some, hreach, Bool.and_self, if_true]
        refine ⟨trivial, _, ?_, by rw [hkinfos]⟩
        intro k
        simp [WindowInfo.HasCounters]

end Calls

/-! ## Runs -/

def WindowMonitor.Waiting (cfg : WindowCfg) (m : WindowMonitor) : Prop :=
  ∃ k, m.kinfos.getLast? = some k ∧ ¬ k.HasCounters cfg

theorem writable_iff (cfg : WindowCfg) (m : WindowMonitor) :
    m.Writable cfg ↔ (∀ k ∈ m.kinfos.dropLast, k.HasCounters cfg) ∧ ¬ m.Waiting cfg := by
  unfold WindowMonitor.Writable WindowMonitor.Waiting
  rcases List.eq_nil_or_concat m.kinfos with hnil | ⟨l, k, hl⟩
  · simp [hnil]
  · rw [hl, List.concat_eq_append, List.forall_mem_append, List.forall_mem_singleton]
    simp

/-- Once every start gets through, the writer finds all arrays exactly when every window was closed
in time: a record that is no longer the last one is never completed. -/
theorem writable_run_iff {cfg : WindowCfg} {calls : List WindowCall} {m m' : WindowMonitor}
    {waiting : Bool} (hwait : waiting = true ↔ m.Waiting cfg)
    (h : run (WindowMonitor.step cfg) m calls = some m') :
    m'.Writable cfg ↔ (∀ k ∈ m.kinfos.dropLast, k.HasCounters cfg) ∧
      Closed cfg m.nonstopMode waiting calls := by
  induction calls generalizing m waiting with
  | nil =>
      cases h
      rw [writable_iff, ← hwait, Closed, Bool.not_eq_true]
  | cons c calls ih =>
      obtain ⟨m₁, hstep, hrun⟩ := exists_of_run_cons h
      cases c with
      | start tag offloaded env =>
          obtain ⟨⟨e, m₂⟩, hstart, rfl⟩ := Option.map_eq_some_iff.mp hstep
          obtain ⟨⟨k, hkinfos, hnone⟩, hmode, -⟩ := start_spec hstart
          have hopen : true = true ↔ m₂.Waiting cfg := by
            unfold WindowMonitor.Waiting
            rw [hkinfos]
            simp [WindowInfo.HasCounters, hnone]
          have hall : (∀ k ∈ m.kinfos, k.HasCounters cfg) ↔
              (∀ k ∈ m.kinfos.dropLast, k.HasCounters cfg) ∧ waiting = false := by
            rw [← Bool.not_eq_true, hwait]
            exact writable_iff cfg m
          rw [ih hopen hrun, hkinfos, hmode, List.dropLast_concat, hall, Closed, and_assoc]
      | stop env =>
          have hne : m.kinfos ≠ [] := by
            rintro hnil
            rw [WindowMonitor.step, if_pos hnil] at hstep
            cases hstep
          rw [WindowMonitor.step, if_neg hne] at hstep
          cases hstep
          obtain ⟨hmode, hlist⟩ := stop_spec cfg m env
          obtain ⟨l, k, hl⟩ := (List.eq_nil_or_concat m.kinfos).resolve_left hne
          rw [List.concat_eq_append] at hl
          rw [Closed]
          split_ifs at hlist with hreach
          · obtain ⟨f, hf, hkinfos⟩ := hlist
            rw [hl, mapLast_concat] at hkinfos
            have hdone : false = true ↔ (m.stop cfg env).2.Waiting cfg := by
              unfold WindowMonitor.Waiting
              rw [hkinfos]
              simp [hf k]
            rw [ih hdone hrun, hkinfos, hmode, hl, hreach, List.dropLast_concat,
              List.dropLast_concat, Bool.not_true, Bool.and_false]
          · have hsame : waiting = true ↔ (m.stop cfg env).2.Waiting cfg := by
              unfold WindowMonitor.Waiting
              rw [hlist]
              exact hwait
            have hfalse : env.reaches cfg m.nonstopMode = false := by simpa using hreach
            rw [ih hsame hrun, hlist, hmode, hfalse, Bool.not_false, Bool.and_true]
      | setNonstop =>
          cases hstep
          have hsame : waiting = true ↔
              WindowMonitor.Waiting cfg { m with nonstopMode := true } := hwait
          exact ih hsame hrun
      | drained =>
          cases hstep
          have hsame : waiting = true ↔
              WindowMonitor.Waiting cfg { m with drain := m.drain + 1 } := hwait
          have hkeep := ih hsame hrun
          exact hkeep

/-- A start that throws has changed the list. -/
theorem startsAtomic_iff {cfg : WindowCfg} {calls : List WindowCall} {m : WindowMonitor}
    (h : run (WindowMonitor.step cfg) .initial calls = some m) :
    StartsAtomic cfg calls ↔
      ∀ tag offloaded env, .start tag offloaded env ∈ calls → env.Accepts cfg tag := by
  constructor
  · intro hatomic tag offloaded env hmem
    obtain ⟨before, after, rfl⟩ := List.append_of_mem hmem
    obtain ⟨m₀, hbefore, hrest⟩ := exists_of_run_append h
    obtain ⟨m₁, hstep, -⟩ := exists_of_run_cons hrest
    obtain ⟨⟨e, m₂⟩, hstart, -⟩ := Option.map_eq_some_iff.mp hstep
    obtain ⟨⟨k, hkinfos, -⟩, -, hiff⟩ := start_spec hstart
    cases e with
    | none => exact hiff.mp rfl
    | some e =>
        have hsame := (hatomic before tag offloaded env after m₀ e m₂ rfl hbefore hstart).1
        rw [hkinfos] at hsame
        exact absurd (congrArg List.length hsame) (by simp)
  · intro hall before tag offloaded env after m₀ e m₁ hcalls _ hstart
    have haccept := hall tag offloaded env (by rw [hcalls]; simp)
    exact absurd ((start_spec hstart).2.2.mpr haccept) (by simp)

/-- A sequence of calls leaves no half-built window exactly when every start gets through and is
followed by a stop that reaches the counters before the next start. -/
theorem window_starts_iff (cfg : WindowCfg) (calls : List WindowCall) (m : WindowMonitor)
    (h : run (WindowMonitor.step cfg) .initial calls = some m) :
    (StartsAtomic cfg calls ∧ m.Writable cfg) ↔
      (∀ tag offloaded env, .start tag offloaded env ∈ calls → env.Accepts cfg tag) ∧
        Closed cfg false false calls := by
  have hwait : false = true ↔ WindowMonitor.Waiting cfg .initial := by
    simp [WindowMonitor.Waiting, WindowMonitor.initial]
  rw [startsAtomic_iff h, writable_run_iff hwait h]
  simp [WindowMonitor.initial]

def oneCounter : WindowCfg := ⟨1, 0, false, false, false, 1⟩

def plainStop : WindowCall := .stop ⟨some ⟨2, 0⟩, true, fun _ => ⟨3, 1⟩, true⟩

def taggedStart (tag : List Char) : WindowCall := .start (some tag) false ⟨true, some ⟨1, 0⟩⟩

theorem window_starts_iff_small : ∃ m,
    run (WindowMonitor.step oneCounter) .initial [taggedStart ['a'], plainStop] = some m ∧
      m.Writable oneCounter := by
  refine ⟨_, rfl, ?_⟩
  refine ((window_starts_iff oneCounter [taggedStart ['a'], plainStop] _ rfl).mpr ⟨?_, ?_⟩).2
  · intro tag offloaded env hmem
    rcases List.mem_cons.mp hmem with hstart | hstop
    · cases hstart
      exact ⟨rfl, fun _ => rfl, rfl⟩
    · cases List.mem_singleton.mp hstop
  · exact ⟨rfl, rfl⟩

/-- The tag `a=b` is refused; the next window is complete, but the refused one is still in the list
and has no counters. -/
theorem refused_start_leaves_window :
    ¬ StartsAtomic oneCounter [taggedStart ['a', '=', 'b'], taggedStart ['a'], plainStop] ∧
    ∃ m, run (WindowMonitor.step oneCounter) .initial
        [taggedStart ['a', '=', 'b'], taggedStart ['a'], plainStop] = some m ∧
      m.kinfos.map (fun k => k.counters.isSome) = [false, true] := by
  constructor
  · intro h
    have hsame := h [] (some ['a', '=', 'b']) false ⟨true, some ⟨1, 0⟩⟩
      [taggedStart ['a'], plainStop] .initial _ _ rfl rfl rfl
    exact absurd (congrArg List.length hsame.1) (by decide)
  · exact ⟨_, rfl, rfl⟩

end RdSpeTool
