import Mathlib
import RdSpeTool.Hotspots

/-!
# Latencies of hotspots

A counter packet carries two bytes, so no latency of a sample reaches `2 ^ 16`, whatever the bytes of
the AUX area are. The execution latency of a sample is told only when the other three are, and the
sums over fewer than `2 ^ 48` samples stay below `2 ^ 64`.
-/

namespace RdSpeTool

open Schedule

/-! ## Flags -/

theorem SpeSample.hasFlag_iff (x : SpeSample) {flag : U64} {k : ℕ}
    (hflag : flag = BitVec.twoPow 64 k) (hk : k < 64) :
    x.hasFlag flag = true ↔ x.flags.getLsbD k = true := by
  subst hflag
  unfold hasFlag
  rw [decide_eq_true_eq, ne_eq, BitVec.and_twoPow]
  by_cases hbit : x.flags.getLsbD k
  · rw [if_pos hbit]
    refine iff_of_true (fun hz => ?_) hbit
    have hone := congrArg (fun v : U64 => v.getLsbD k) hz
    simp [hk] at hone
  · rw [if_neg hbit]
    simpa using hbit

structure SpeSample.Pending (p : SpeSample) : Prop where
  latTotal : p.latTotal.toNat < 2 ^ 16
  latIssue : p.latIssue.toNat < 2 ^ 16
  latXlat : p.latXlat.toNat < 2 ^ 16
  noExec : p.flags.getLsbD 5 = false

structure SpeSample.Sound (x : SpeSample) : Prop where
  latTotal : x.latTotal.toNat < 2 ^ 16
  latIssue : x.latIssue.toNat < 2 ^ 16
  latXlat : x.latXlat.toNat < 2 ^ 16
  exec : x.hasFlag latExecValid = true → x.hasFlag latTotalValid = true ∧
    x.hasFlag latIssueValid = true ∧ x.hasFlag latXlatValid = true ∧
    x.latIssue.toNat + x.latXlat.toNat ≤ x.latTotal.toNat

theorem SpeSample.Pending.zero : SpeSample.zero.Pending :=
  ⟨by decide, by decide, by decide, by decide⟩

theorem SpeSample.Pending.put {p : SpeSample} (h : p.Pending) (k : SpeKind) {v : U64}
    (hv : k.isLatency = true → v.toNat < 2 ^ 16) : (p.put k v).Pending := by
  obtain ⟨ht, hi, hx, he⟩ := h
  have hbit : ∀ flag : U64, flag.getLsbD 5 = false → (p.flags ||| flag).getLsbD 5 = false := by
    intro flag hflag
    rw [BitVec.getLsbD_or, he, hflag]
    rfl
  cases k with
  | pc => exact ⟨ht, hi, hx, hbit _ (by decide)⟩
  | dataVa => exact ⟨ht, hi, hx, hbit _ (by decide)⟩
  | latTotal => exact ⟨hv rfl, hi, hx, hbit _ (by decide)⟩
  | latIssue => exact ⟨ht, hv rfl, hx, hbit _ (by decide)⟩
  | latXlat => exact ⟨ht, hi, hv rfl, hbit _ (by decide)⟩
  | events => exact ⟨ht, hi, hx, hbit _ (by decide)⟩

/-- Three flags and a comparison without wrap stand behind an execution latency. -/
theorem SpeSample.Pending.sampleOf {p : SpeSample} (h : p.Pending) :
    (Sampler.sampleOf p).Sound := by
  obtain ⟨ht, hi, hx, he⟩ := h
  unfold Sampler.sampleOf
  dsimp only
  split_ifs with hexec
  · obtain ⟨hflags, hle⟩ := hexec
    have hbit : ∀ k, (latTotalValid ||| latIssueValid ||| latXlatValid).getLsbD k = true →
        (p.flags ||| latExecValid).getLsbD k = true := by
      intro k hk
      have hand := congrArg (fun v : U64 => v.getLsbD k) hflags
      simp only [BitVec.getLsbD_and, hk, Bool.and_true] at hand
      rw [BitVec.getLsbD_or, hand, Bool.true_or]
    refine ⟨ht, hi, hx, fun _ => ⟨?_, ?_, ?_, ?_⟩⟩
    · exact (hasFlag_iff _ (k := 1) (by decide) (by decide)).mpr (hbit 1 (by decide))
    · exact (hasFlag_iff _ (k := 2) (by decide) (by decide)).mpr (hbit 2 (by decide))
    · exact (hasFlag_iff _ (k := 3) (by decide) (by decide)).mpr (hbit 3 (by decide))
    · rw [ge_iff_le, BitVec.le_def, BitVec.toNat_add, Nat.mod_eq_of_lt (by omega)] at hle
      exact hle
  · refine ⟨ht, hi, hx, fun hflag => ?_⟩
    rw [hasFlag_iff _ (k := 5) (by decide) (by decide), he] at hflag
    cases hflag

/-! ## Arbitrary bytes -/

/-- Whatever a drain finds, pending and written samples keep the bounds. -/
theorem Sampler.processSamplesLocked_sound (s : Sampler) (hp : s.pending.Pending)
    (hw : ∀ x, .spe x ∈ s.written → x.Sound) (area : AuxArea) (records : List RingRecord) :
    (s.processSamplesLocked area records).pending.Pending ∧
      ∀ x, .spe x ∈ (s.processSamplesLocked area records).written → x.Sound := by
  apply drain_invariant (P := fun p w => p.Pending ∧ ∀ x, .spe x ∈ w → x.Sound)
  case hput =>
    rintro p w k v hv ⟨hp, hw⟩
    exact ⟨hp.put k hv, hw⟩
  case hclear =>
    rintro p w ⟨-, hw⟩
    exact ⟨.zero, hw⟩
  case hwrite =>
    rintro p w - ⟨hp, hw⟩
    refine ⟨.zero, fun x hx => ?_⟩
    rcases List.mem_append.mp hx with hx | hx
    · exact hw x hx
    · cases List.mem_singleton.mp hx
      exact hp.sampleOf
  case hsample =>
    rintro p w time addr - ⟨hp, hw⟩
    refine ⟨hp, fun x hx => ?_⟩
    rcases List.mem_append.mp hx with hx | hx
    · exact hw x hx
    · cases List.mem_singleton.mp hx
  case h => exact ⟨hp, hw⟩

namespace SpeMonitor

def Sound (m : SpeMonitor) : Prop :=
  (∀ slot ∈ m.slots, slot.sampler.pending.Pending) ∧
    ∀ tid k x, .spe x ∈ m.files tid k → x.Sound

variable {exePath : Text} {m m' : SpeMonitor}

theorem Sound.drained (h : m.Sound) {i : ℕ} {slot : SpeSlot} (hslot : m.slots[i]? = some slot)
    (area : AuxArea) (records : List RingRecord) :
    (m.drained slot area records).pending.Pending ∧
      ∀ x, .spe x ∈ (m.drained slot area records).written → x.Sound := by
  apply Sampler.processSamplesLocked_sound
  · exact h.1 slot (List.mem_of_getElem? hslot)
  · intro x hx
    cases hx

theorem Sound.step (h : m.Sound) {st : SpeStep} (hstep : m.step exePath st = some m') :
    m'.Sound ∧ ∀ r ∈ m.stepLog st, r.sample.Sound := by
  obtain ⟨tid, k, rfl, -, rfl⟩ | ⟨rfl, rfl⟩ | ⟨rfl, rfl⟩ | ⟨_, _, rfl, -, rfl⟩ |
    ⟨i, area, records, slot, rfl, -, hslot, rfl⟩ := step_cases hstep
  · refine ⟨⟨fun slot hmem => ?_, h.2⟩, by simp [stepLog]⟩
    rcases List.mem_append.mp hmem with hmem | hmem
    · exact h.1 slot hmem
    · rw [List.mem_singleton.mp hmem]
      exact .zero
  · exact ⟨h, by simp [stepLog]⟩
  · exact ⟨h, by simp [stepLog]⟩
  · exact ⟨h, by simp [stepLog]⟩
  · obtain ⟨hpend, hwrite⟩ := h.drained hslot area records
    refine ⟨⟨fun slot' hmem => ?_, fun tid k x hx => ?_⟩, fun r hr => ?_⟩
    · rcases List.mem_or_eq_of_mem_set hmem with hmem | rfl
      · exact h.1 slot' hmem
      · exact hpend
    · dsimp only [afterDrain] at hx
      by_cases htid : tid = slot.tid
      · subst htid
        rw [Function.update_self] at hx
        by_cases hk : k = slot.samplerIndex
        · subst hk
          rw [Function.update_self] at hx
          rcases List.mem_append.mp hx with hx | hx
          · exact h.2 _ _ x hx
          · exact hwrite x hx
        · rw [Function.update_of_ne hk] at hx
          exact h.2 _ _ x hx
      · rw [Function.update_of_ne htid] at hx
        exact h.2 _ _ x hx
    · simp only [stepLog, hslot, entriesOf, List.mem_filterMap, Option.map_eq_some_iff] at hr
      obtain ⟨x, hx, key, -, rfl⟩ := hr
      exact hwrite x (Sampler.mem_speWritten.mp hx)

theorem Sound.run (h : m.Sound) {steps : List SpeStep}
    (hrun : Schedule.run (SpeMonitor.step exePath) m steps = some m') :
    m'.Sound ∧ ∀ r ∈ log exePath m steps, r.sample.Sound := by
  induction steps generalizing m with
  | nil =>
      rw [← Option.some.inj hrun]
      exact ⟨h, by simp [log]⟩
  | cons st steps ih =>
      obtain ⟨m₁, hstep, hrest⟩ := exists_of_run_cons hrun
      obtain ⟨hm₁, hlog⟩ := h.step hstep
      obtain ⟨hm', hlog'⟩ := ih hm₁ hrest
      refine ⟨hm', fun r hr => ?_⟩
      rw [log, hstep] at hr
      rcases List.mem_append.mp hr with hr | hr
      · exact hlog r hr
      · exact hlog' r hr

theorem sound_initial : initial.Sound := by
  constructor
  · simp [initial]
  · simp [initial]

end SpeMonitor

/-! ## Sums -/

section Sums

variable {xs : List SpeSample}

/-- A field to which each sample adds `f` is the sum of `f`. -/
theorem HotspotStats.field_ofSamples {F : HotspotStats → U64} {f : SpeSample → U64}
    (hadd : ∀ st x, F (st.add x) = F st + f x) (hzero : F .zero = 0) (xs : List SpeSample) :
    F (.ofSamples xs) = (xs.map f).sum := by
  have hfold : ∀ st, F (xs.foldl .add st) = F st + (xs.map f).sum := by
    induction xs with
    | nil => simp
    | cons x xs ih =>
        intro st
        rw [List.foldl_cons, ih, hadd, List.map_cons, List.sum_cons, BitVec.add_assoc]
  rw [ofSamples, hfold, hzero]
  exact BitVec.zero_add _

theorem toNat_sum_of_small {f : SpeSample → U64} (hf : ∀ x ∈ xs, (f x).toNat < 2 ^ 16)
    (hlen : xs.length ≤ 2 ^ 48) :
    (xs.map f).sum.toNat = (xs.map fun x => (f x).toNat).sum ∧
      (xs.map fun x => (f x).toNat).sum ≤ xs.length * (2 ^ 16 - 1) := by
  induction xs with
  | nil => exact ⟨rfl, le_rfl⟩
  | cons x xs ih =>
      rw [List.forall_mem_cons] at hf
      rw [List.length_cons] at hlen
      obtain ⟨heq, hle⟩ := ih hf.2 (by omega)
      have hx := hf.1
      have hsum : (x :: xs).length * (2 ^ 16 - 1) = xs.length * (2 ^ 16 - 1) + (2 ^ 16 - 1) := by
        rw [List.length_cons, Nat.succ_mul]
      rw [List.map_cons, List.sum_cons, List.map_cons, List.sum_cons, BitVec.toNat_add, heq, hsum]
      refine ⟨Nat.mod_eq_of_lt ?_, by omega⟩
      omega

/-- Fields whose samples contribute small numbers do not wrap. -/
theorem HotspotStats.toNat_field {F : HotspotStats → U64} {f : SpeSample → U64}
    (hadd : ∀ st x, F (st.add x) = F st + f x) (hzero : F .zero = 0)
    (hf : ∀ x ∈ xs, (f x).toNat < 2 ^ 16) (hlen : xs.length ≤ 2 ^ 48) :
    (F (.ofSamples xs)).toNat = (xs.map fun x => (f x).toNat).sum := by
  rw [field_ofSamples hadd hzero]
  exact (toNat_sum_of_small hf hlen).1

theorem tally_le_one (c : Bool) : (tally c).toNat ≤ 1 := by
  cases c with
  | true => decide
  | false => decide

theorem tally_le_tally {c c' : Bool} (h : c = true → c' = true) :
    (tally c).toNat ≤ (tally c').toNat := by
  cases c with
  | true => rw [h rfl]
  | false => exact Nat.zero_le _

/-- A count of samples grows with the condition, and stays below the number of samples. -/
theorem HotspotStats.count_le {F G : HotspotStats → U64} {c d : SpeSample → Bool}
    (hF : ∀ st x, F (st.add x) = F st + tally (c x)) (hF0 : F .zero = 0)
    (hG : ∀ st x, G (st.add x) = G st + tally (d x)) (hG0 : G .zero = 0)
    (hcd : ∀ x ∈ xs, c x = true → d x = true) (hlen : xs.length ≤ 2 ^ 48) :
    (F (.ofSamples xs)).toNat ≤ (G (.ofSamples xs)).toNat := by
  have hsmall : ∀ b, (tally b).toNat < 2 ^ 16 := fun b => (tally_le_one b).trans_lt (by decide)
  rw [toNat_field hF hF0 (fun x _ => hsmall _) hlen, toNat_field hG hG0 (fun x _ => hsmall _) hlen]
  exact List.sum_le_sum fun x hx => tally_le_tally (hcd x hx)

theorem SpeSample.Sound.exec_toNat {x : SpeSample} (h : x.Sound)
    (hexec : x.hasFlag latExecValid = true) :
    (x.latTotal - (x.latIssue + x.latXlat)).toNat + (x.latIssue.toNat + x.latXlat.toNat) =
      x.latTotal.toNat := by
  obtain ⟨-, -, -, hle⟩ := h.exec hexec
  have hi := h.latIssue
  have hx := h.latXlat
  have hadd : (x.latIssue + x.latXlat).toNat = x.latIssue.toNat + x.latXlat.toNat := by
    rw [BitVec.toNat_add, Nat.mod_eq_of_lt (by omega)]
  rw [BitVec.toNat_sub_of_le (by rw [BitVec.le_def, hadd]; exact hle), hadd]
  omega

/-- Execution, issue and translation latencies of the flagged samples are their total latencies. -/
theorem exec_sum_split (hs : ∀ x ∈ xs, x.Sound) :
    (xs.map fun x => (if x.hasFlag latExecValid then x.latTotal - (x.latIssue + x.latXlat)
        else 0 : U64).toNat).sum +
      ((xs.filter (·.hasFlag latExecValid)).map fun x => x.latIssue.toNat + x.latXlat.toNat).sum =
      ((xs.filter (·.hasFlag latExecValid)).map fun x => x.latTotal.toNat).sum := by
  induction xs with
  | nil => rfl
  | cons x xs ih =>
      rw [List.forall_mem_cons] at hs
      have hrest := ih hs.2
      by_cases hexec : x.hasFlag latExecValid = true
      · have hx := hs.1.exec_toNat hexec
        simp only [List.filter_cons, List.map_cons, List.sum_cons, hexec, if_true]
        omega
      · simp only [List.filter_cons, List.map_cons, List.sum_cons, hexec, Bool.false_eq_true, if_false]
        simpa using hrest

end Sums

/-- What a sample adds to the execution sum is part of what it adds to the total. -/
theorem SpeSample.Sound.exec_le_total {x : SpeSample} (h : x.Sound) :
    (if x.hasFlag latExecValid then x.latTotal - (x.latIssue + x.latXlat) else 0 : U64).toNat ≤
        (if x.hasFlag latTotalValid then x.latTotal else 0 : U64).toNat ∧
      (if x.hasFlag latTotalValid then x.latTotal else 0 : U64).toNat < 2 ^ 16 := by
  have hlt := h.latTotal
  by_cases hflag : x.hasFlag latExecValid = true
  · have hsplit := h.exec_toNat hflag
    rw [if_pos hflag, if_pos (h.exec hflag).1]
    omega
  · rw [if_neg hflag]
    split_ifs
    · exact ⟨Nat.zero_le _, hlt⟩
    · exact ⟨le_rfl, by decide⟩

/-- For arbitrary AUX bytes, latencies are small, execution latencies never wrap, and the sums and
counts of every hotspot are in order as long as fewer than `2 ^ 48` samples were recorded. -/
theorem latency_aggregation (exePath : Text) (steps : List SpeStep) (m : SpeMonitor)
    (h : run (SpeMonitor.step exePath) .initial steps = some m) :
    (∀ tid k x, .spe x ∈ m.files tid k →
      x.latTotal.toNat < 2 ^ 16 ∧ x.latIssue.toNat < 2 ^ 16 ∧ x.latXlat.toNat < 2 ^ 16 ∧
        (x.hasFlag latExecValid = true → x.latIssue.toNat + x.latXlat.toNat ≤ x.latTotal.toNat)) ∧
      ((SpeMonitor.log exePath .initial steps).length < 2 ^ 48 →
        ∀ tid key st, (m.hotspots tid).lookup key = some st →
          let flagged := (samplesUnder tid key (SpeMonitor.log exePath .initial steps)).filter
            (·.hasFlag latExecValid)
          let least := min st.latTotalCount.toNat (min st.latIssueCount.toNat st.latXlatCount.toNat)
          st.latExecSum.toNat ≤ st.latTotalSum.toNat ∧
            st.latExecCount.toNat ≤ least ∧ least ≤ st.sampleCount.toNat ∧
            (st.l1dRefillCount.toNat ≤ st.sampleCount.toNat ∧
              st.llcMissCount.toNat ≤ st.sampleCount.toNat ∧
              st.tlbWalkCount.toNat ≤ st.sampleCount.toNat ∧
              st.remoteAccessCount.toNat ≤ st.sampleCount.toNat) ∧
            st.latExecSum.toNat + (flagged.map fun x => x.latIssue.toNat + x.latXlat.toNat).sum =
              (flagged.map fun x => x.latTotal.toNat).sum) := by
  obtain ⟨hm, hlog⟩ := SpeMonitor.sound_initial.run h
  refine ⟨fun tid k x hx => ?_, fun hlen tid key st hst => ?_⟩
  · have hx := hm.2 tid k x hx
    exact ⟨hx.latTotal, hx.latIssue, hx.latXlat, fun hexec => (hx.exec hexec).2.2.2⟩
  · obtain rfl := SpeMonitor.run_lookup h hst
    obtain ⟨hle, hmem⟩ := samplesUnder_sublist tid key (SpeMonitor.log exePath .initial steps)
    have hsound : ∀ x ∈ samplesUnder tid key (SpeMonitor.log exePath .initial steps), x.Sound := by
      intro x hx
      obtain ⟨r, hr, rfl⟩ := hmem x hx
      exact hlog r hr
    generalize samplesUnder tid key (SpeMonitor.log exePath .initial steps) = xs at hle hsound ⊢
    have hxs : xs.length ≤ 2 ^ 48 := by omega
    -- each count against the number of samples, and the execution count against the other three
    have hall : ∀ {F : HotspotStats → U64} {c : SpeSample → Bool},
        (∀ st x, F (st.add x) = F st + tally (c x)) → F .zero = 0 →
          (F (.ofSamples xs)).toNat ≤ (HotspotStats.ofSamples xs).sampleCount.toNat :=
      fun hF hF0 => HotspotStats.count_le (G := HotspotStats.sampleCount) (d := fun _ => true)
        hF hF0 (fun _ _ => rfl) rfl (fun _ _ _ => rfl) hxs
    have hexec : ∀ {G : HotspotStats → U64} {d : SpeSample → Bool},
        (∀ st x, G (st.add x) = G st + tally (d x)) → G .zero = 0 →
          (∀ x ∈ xs, x.hasFlag latExecValid = true → d x = true) →
          (HotspotStats.ofSamples xs).latExecCount.toNat ≤ (G (.ofSamples xs)).toNat :=
      fun hG hG0 hd => HotspotStats.count_le (fun _ _ => rfl) rfl hG hG0 hd hxs
    have hbound := fun x hx => (hsound x hx).exec_le_total
    have hexecSum : (HotspotStats.ofSamples xs).latExecSum.toNat = _ :=
      HotspotStats.toNat_field (fun _ _ => rfl) rfl
        (fun x hx => (hbound x hx).1.trans_lt (hbound x hx).2) hxs
    have htotalSum : (HotspotStats.ofSamples xs).latTotalSum.toNat = _ :=
      HotspotStats.toNat_field (fun _ _ => rfl) rfl (fun x hx => (hbound x hx).2) hxs
    refine ⟨?_, ?_, ?_, ⟨?_, ?_, ?_, ?_⟩, ?_⟩
    · rw [hexecSum, htotalSum]
      exact List.sum_le_sum fun x hx => (hbound x hx).1
    · refine le_min ?_ (le_min ?_ ?_)
      · exact hexec (fun _ _ => rfl) rfl fun x hx he => ((hsound x hx).exec he).1
      · exact hexec (fun _ _ => rfl) rfl fun x hx he => ((hsound x hx).exec he).2.1
      · exact hexec (fun _ _ => rfl) rfl fun x hx he => ((hsound x hx).exec he).2.2.1
    · exact (min_le_left _ _).trans (hall (fun _ _ => rfl) rfl)
    · exact hall (fun _ _ => rfl) rfl
    · exact hall (fun _ _ => rfl) rfl
    · exact hall (fun _ _ => rfl) rfl
    · exact hall (fun _ _ => rfl) rfl
    · rw [hexecSum]
      exact exec_sum_split hsound

def timedRecord : List U8 := [0xB0, 0x10, 0x00, 0x40, 0, 0, 0, 0, 0, 0x98, 100, 0, 0x99, 30, 0,
  0x9A, 20, 0, 0x01]

def timedSteps : List SpeStep := [.register 7 0, .openWindow, .readMainBinary,
  .readMapsLine some "00400000-00500000 r-xp 00000000 08:01 77 /opt/app".toList,
  .drain 0 ⟨fun i => timedRecord.getD i 0, 64⟩ [.aux 0 19 0]]

/-- The 50 cycles that are left for the execution are in the sample and in its hotspot. -/
theorem latency_aggregation_small : ∃ m x st,
    run (SpeMonitor.step "/opt/app".toList) .initial timedSteps = some m ∧
    m.files 7 0 = [.spe x] ∧ x.hasFlag latExecValid = true ∧
    x.latIssue.toNat + x.latXlat.toNat ≤ x.latTotal.toNat ∧
    (m.hotspots 7).lookup ⟨0, 0x10⟩ = some st ∧
    (st.latTotalSum, st.latExecSum, st.latExecCount) = (100, 50, 1) ∧
    st.latExecSum.toNat ≤ st.latTotalSum.toNat ∧ st.latExecCount.toNat ≤ st.sampleCount.toNat := by
  have hfiles : (run (SpeMonitor.step "/opt/app".toList) .initial timedSteps).map
      (fun m => m.files 7 0) = some [.spe ⟨0x400010, 0, 100, 30, 20, 0,
        pcValid ||| latTotalValid ||| latIssueValid ||| latXlatValid ||| latExecValid⟩] := by
    decide +kernel
  have hsums : (run (SpeMonitor.step "/opt/app".toList) .initial timedSteps).bind (fun m =>
      ((m.hotspots 7).lookup ⟨0, 0x10⟩).map fun st =>
        (st.latTotalSum, st.latExecSum, st.latExecCount)) = some (100, 50, 1) := by
    decide +kernel
  obtain ⟨m, hm, hfiles⟩ := Option.map_eq_some_iff.mp hfiles
  rw [hm, Option.bind_some] at hsums
  obtain ⟨st, hst, hsums⟩ := Option.map_eq_some_iff.mp hsums
  obtain ⟨hsamples, hhotspots⟩ := latency_aggregation _ _ m hm
  have hx := (hsamples 7 0 _ (hfiles ▸ List.mem_singleton_self _)).2.2.2 (by decide)
  obtain ⟨hexec, hcount, hleast, -⟩ := hhotspots (by decide +kernel) 7 _ st hst
  exact ⟨m, _, st, hm, hfiles, by decide, hx, hst, hsums, hexec, hcount.trans hleast⟩

end RdSpeTool
