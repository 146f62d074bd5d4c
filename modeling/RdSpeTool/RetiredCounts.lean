import RdSpeTool.WindowCounters

/-!
# Unregistering with failing reads

`unregister_thread_locked` drains the samplers, adds the counts of the thread to the retired sums one
descriptor after the other, and closes the thread last. A read that fails throws out of the middle of
the additions.
-/

namespace RdSpeTool

open Schedule

/-- What an unregistration meets: whether the drain throws, and which reads succeed, in order. -/
structure ReadPattern where
  drainOk : Bool
  readOk : ℕ → Bool

/-- `accumulate_retired_counts_locked` over the descriptors in order: whether it came to its end, and
the sums it left. -/
def accumulateRetiredCounts (r : ℕ → ReadFormat) :
    List (ℕ × ReadFormat) → (ℕ → Bool) → Bool × (ℕ → ReadFormat)
  | [], _ => (true, r)
  | p :: l, ok =>
      if ok 0 = false then (false, r)
      else accumulateRetiredCounts (Function.update r p.1 ((r p.1).add p.2)) l fun n => ok (n + 1)

/-- The first component tells whether the call returned; if not, it threw. -/
def tryUnregister (cfg : CounterCfg) (m : CounterMonitor) (tid : ℤ) (ok : ReadPattern) :
    Bool × CounterMonitor :=
  if (m.threads tid).active = false then (true, m)
  else if ok.drainOk = false then (false, m)
  else
    let sums := accumulateRetiredCounts m.retired ((m.threads tid).retiring cfg) ok.readOk
    if sums.1 then
      (true, { m with retired := sums.2, threads := Function.update m.threads tid .closed })
    else (false, { m with retired := sums.2 })

def readsBefore : List (ℕ × ReadFormat) → (ℕ → Bool) → List (ℕ × ReadFormat)
  | [], _ => []
  | p :: l, ok => if ok 0 = false then [] else p :: readsBefore l fun n => ok (n + 1)

/-! ## The additions -/

section Additions

variable {l : List (ℕ × ReadFormat)} {ok : ℕ → Bool}

theorem accumulateRetiredCounts_snd (r : ℕ → ReadFormat) (l : List (ℕ × ReadFormat))
    (ok : ℕ → Bool) : (accumulateRetiredCounts r l ok).2 = addCounts r (readsBefore l ok) := by
  induction l generalizing r ok with
  | nil => rfl
  | cons p l ih =>
      rw [accumulateRetiredCounts, readsBefore]
      split_ifs
      · rfl
      · exact ih _ _

theorem accumulateRetiredCounts_fst (r : ℕ → ReadFormat) (l : List (ℕ × ReadFormat))
    (ok : ℕ → Bool) :
    (accumulateRetiredCounts r l ok).1 = true ↔ ∀ k < l.length, ok k = true := by
  induction l generalizing r ok with
  | nil => simp [accumulateRetiredCounts]
  | cons p l ih =>
      rw [accumulateRetiredCounts, List.length_cons, Nat.forall_lt_succ_left']
      split_ifs with h
      · simp [h]
      · rw [ih]
        simp [h]

theorem readsBefore_of_ok (h : ∀ k < l.length, ok k = true) : readsBefore l ok = l := by
  induction l generalizing ok with
  | nil => rfl
  | cons p l ih =>
      rw [List.length_cons, Nat.forall_lt_succ_left'] at h
      rw [readsBefore, if_neg (by simp [h.1]), ih h.2]

theorem readsBefore_sublist (l : List (ℕ × ReadFormat)) (ok : ℕ → Bool) :
    (readsBefore l ok).Sublist l := by
  induction l generalizing ok with
  | nil => exact .slnil
  | cons p l ih =>
      rw [readsBefore]
      split_ifs
      · exact List.nil_sublist _
      · exact (ih _).cons_cons p

theorem ReadFormat.add_eq_self {a b : ReadFormat} : a.add b = a ↔ b = .zero := by
  cases a
  cases b
  simp only [ReadFormat.add, ReadFormat.zero, ReadFormat.mk.injEq, BitVec.add_right_eq_self]
  exact Iff.rfl

/-- Additions at different indices change nothing only if there was nothing to add. -/
theorem addCounts_eq_self_iff (hnd : (l.map Prod.fst).Nodup) (r : ℕ → ReadFormat) :
    addCounts r l = r ↔ ∀ p ∈ l, p.2 = .zero := by
  constructor
  · intro h p hp
    have hat := addCounts_of_mem hnd (show (p.1, p.2) ∈ l from hp) r
    rw [h] at hat
    exact ReadFormat.add_eq_self.mp hat.symm
  · intro h
    induction l generalizing r with
    | nil => rfl
    | cons p l ih =>
        rw [List.map_cons, List.nodup_cons] at hnd
        have hzero := h p List.mem_cons_self
        change addCounts (Function.update r p.1 ((r p.1).add p.2)) l = r
        rw [ReadFormat.add_eq_self.mpr hzero, Function.update_eq_self]
        exact ih hnd.2 r fun q hq => h q (List.mem_cons_of_mem _ hq)

end Additions

/-! ## One call -/

/-- The condition under which a call may fail without a trace: what it read before the failing read
was zero. -/
def CleanPattern (cfg : CounterCfg) (t : CounterThread) (ok : ReadPattern) : Prop :=
  ok.drainOk = true → (∃ k < (t.retiring cfg).length, ok.readOk k = false) →
    ∀ p ∈ readsBefore (t.retiring cfg) ok.readOk, p.2 = .zero

def Untouched (cfg : CounterCfg) (m : CounterMonitor) (tid : ℤ) (ok : ReadPattern) : Prop :=
  (tryUnregister cfg m tid ok).1 = false →
    (tryUnregister cfg m tid ok).2.retired = m.retired ∧
      ((tryUnregister cfg m tid ok).2.threads tid).active = true

section Call

variable {cfg : CounterCfg} {m : CounterMonitor} {tid : ℤ} {ok : ReadPattern}

/-- The ways a call can end. -/
theorem tryUnregister_cases (cfg : CounterCfg) (m : CounterMonitor) (tid : ℤ) (ok : ReadPattern) :
    ((m.threads tid).active = true →
        ∀ k < ((m.threads tid).retiring cfg).length, ok.readOk k = true) ∧
      tryUnregister cfg m tid ok = (true, m.unregisterThreadLocked cfg tid) ∨
    (m.threads tid).active = true ∧ ok.drainOk = false ∧ tryUnregister cfg m tid ok = (false, m) ∨
    (m.threads tid).active = true ∧ ok.drainOk = true ∧
      (∃ k < ((m.threads tid).retiring cfg).length, ok.readOk k = false) ∧
      tryUnregister cfg m tid ok = (false, { m with
        retired := addCounts m.retired (readsBefore ((m.threads tid).retiring cfg) ok.readOk) }) := by
  unfold tryUnregister CounterMonitor.unregisterThreadLocked
  by_cases hact : (m.threads tid).active = false
  · rw [if_pos hact, if_pos hact]
    exact .inl ⟨fun h => absurd h (by simp [hact]), rfl⟩
  have hactive : (m.threads tid).active = true := by simpa using hact
  rw [if_neg hact, if_neg hact]
  by_cases hdrain : ok.drainOk = false
  · rw [if_pos hdrain]
    exact .inr (.inl ⟨hactive, hdrain, rfl⟩)
  rw [if_neg hdrain]
  dsimp only
  rw [accumulateRetiredCounts_snd]
  by_cases hall : ∀ k < ((m.threads tid).retiring cfg).length, ok.readOk k = true
  · rw [if_pos ((accumulateRetiredCounts_fst _ _ _).mpr hall), readsBefore_of_ok hall]
    exact .inl ⟨fun _ => hall, rfl⟩
  · rw [if_neg (mt (accumulateRetiredCounts_fst _ _ _).mp hall)]
    refine .inr (.inr ⟨hactive, by simpa using hdrain, ?_, rfl⟩)
    simpa using hall

theorem untouched_iff (hshaped : (m.threads tid).active = true → (m.threads tid).Shaped cfg) :
    Untouched cfg m tid ok ↔
      ((m.threads tid).active = true → CleanPattern cfg (m.threads tid) ok) := by
  unfold Untouched CleanPattern
  rcases tryUnregister_cases cfg m tid ok with
    ⟨hall, h⟩ | ⟨hact, hdrain, h⟩ | ⟨hact, hdrain, hfail, h⟩
  · rw [h]
    refine iff_of_true (fun hthrew => by cases hthrew) ?_
    rintro hact - ⟨k, hk, hbad⟩
    rw [hall hact k hk] at hbad
    cases hbad
  · simp [h, hact, hdrain]
  · have hnd : ((readsBefore ((m.threads tid).retiring cfg) ok.readOk).map Prod.fst).Nodup := by
      apply List.Nodup.sublist ((readsBefore_sublist _ _).map Prod.fst)
      rw [CounterThread.retiring_indices (hshaped hact)]
      exact List.nodup_range
    rw [h]
    simp [hact, hdrain, hfail, addCounts_eq_self_iff hnd]

end Call

/-! ## Runs -/

inductive RetireStep
  | call (st : CounterStep)
  | unregister (tid : ℤ) (ok : ReadPattern)

namespace RetireStep

def step (cfg : CounterCfg) (m : CounterMonitor) : RetireStep → Option CounterMonitor
  | call st => m.step cfg st
  | unregister tid ok => some (tryUnregister cfg m tid ok).2

def plain : RetireStep → CounterStep
  | call st => st
  | unregister tid _ => .unregisterThread tid

end RetireStep

def countedBy (i : ℕ) (steps : List RetireStep) : ℕ := accumulated i (steps.map RetireStep.plain)

/-- Every unregistration of the schedule meets the condition in the state it finds. -/
def CleanSchedule (cfg : CounterCfg) (steps : List RetireStep) : Prop :=
  ∀ before tid ok after m, steps = before ++ .unregister tid ok :: after →
    run (RetireStep.step cfg) .initial before = some m → (m.threads tid).active = true →
    CleanPattern cfg (m.threads tid) ok

section Runs

variable {cfg : CounterCfg} {steps : List RetireStep} {m : CounterMonitor}

/-- The threads stay in order, whatever happens to the sums. -/
theorem wellFormed_step {st : CounterStep} {m' : CounterMonitor}
    (h : CounterMonitor.WellFormed cfg m.tids m.threads) (hstep : m.step cfg st = some m') :
    CounterMonitor.WellFormed cfg m'.tids m'.threads := by
  cases st with
  | registerThread tid =>
      obtain rfl := Option.some.inj hstep
      exact h.registerThreadLocked tid
  | unregisterThread tid =>
      obtain rfl := Option.some.inj hstep
      unfold CounterMonitor.unregisterThreadLocked
      split_ifs with hact
      · exact h
      · exact h.close (by simpa using hact)
  | start =>
      obtain rfl := Option.some.inj hstep
      exact h
  | stop =>
      obtain rfl := Option.some.inj hstep
      change CounterMonitor.WellFormed cfg (if _ then _ else _ : CounterMonitor).tids
        (if _ then _ else _ : CounterMonitor).threads
      split_ifs
      · exact h
      · exact h
  | readCounters includeSamplers =>
      obtain rfl := Option.some.inj hstep
      exact h
  | count tid i more =>
      rw [CounterMonitor.step] at hstep
      cases hc : (m.threads tid).countAt cfg i with
      | none =>
          rw [hc] at hstep
          cases hstep
      | some c =>
          rw [hc] at hstep
          dsimp only at hstep
          split_ifs at hstep
          obtain rfl := Option.some.inj hstep
          exact h.grow hc more

theorem wellFormed_run (h : run (RetireStep.step cfg) .initial steps = some m) :
    CounterMonitor.WellFormed cfg m.tids m.threads := by
  refine run_invariant (P := fun m => CounterMonitor.WellFormed cfg m.tids m.threads) ?_
    CounterMonitor.counts_initial.wellFormed h
  intro m a m' hm hstep
  cases a with
  | call st => exact wellFormed_step hm hstep
  | unregister tid ok =>
      obtain rfl := Option.some.inj hstep
      rcases tryUnregister_cases cfg m tid ok with ⟨-, h⟩ | ⟨-, -, h⟩ | ⟨-, -, -, h⟩
      · have hplain : m.step cfg (.unregisterThread tid) =
            some (m.unregisterThreadLocked cfg tid) := rfl
        rw [h]
        exact wellFormed_step hm hplain
      · rw [h]
        exact hm
      · rw [h]
        exact hm

theorem CleanSchedule.prefix_of {a : RetireStep} (h : CleanSchedule cfg (steps ++ [a])) :
    CleanSchedule cfg steps := by
  intro before tid ok after m hsteps
  exact h before tid ok (after ++ [a]) m (by rw [hsteps]; simp)

/-- A call that meets the condition succeeds or does nothing. -/
theorem tryUnregister_clean (hw : CounterMonitor.WellFormed cfg m.tids m.threads) {tid : ℤ}
    {ok : ReadPattern}
    (hclean : (m.threads tid).active = true → CleanPattern cfg (m.threads tid) ok) :
    (tryUnregister cfg m tid ok).2 = m.unregisterThreadLocked cfg tid ∨
      (tryUnregister cfg m tid ok).2 = m := by
  have hsame := (untouched_iff (hw.shaped tid)).mpr hclean
  rcases tryUnregister_cases cfg m tid ok with ⟨-, h⟩ | ⟨-, -, h⟩ | ⟨-, -, -, h⟩
  · rw [h]
    exact .inl rfl
  · rw [h]
    exact .inr rfl
  · have hretired := (hsame (by rw [h])).1
    rw [h] at hretired ⊢
    dsimp only at hretired ⊢
    rw [hretired]
    exact .inr rfl

/-- A schedule that meets the condition leads where it leads without its failed calls. -/
theorem exists_plain_run (hrun : run (RetireStep.step cfg) .initial steps = some m)
    (hclean : CleanSchedule cfg steps) :
    ∃ plain, plain.Sublist (steps.map RetireStep.plain) ∧
      run (CounterMonitor.step cfg) .initial plain = some m ∧
      ∀ i, accumulated i plain = countedBy i steps := by
  induction steps using List.reverseRecOn generalizing m with
  | nil => exact ⟨[], .slnil, hrun, fun _ => rfl⟩
  | append_singleton steps a ih =>
      obtain ⟨m₀, hm₀, hlast⟩ := exists_of_run_concat hrun
      obtain ⟨plain, hsub, hplain, hcount⟩ := ih hm₀ hclean.prefix_of
      -- either the call is kept or it did nothing
      have hkeep : m₀.step cfg a.plain = some m → ∃ plain, plain.Sublist
          ((steps ++ [a]).map RetireStep.plain) ∧
          run (CounterMonitor.step cfg) .initial plain = some m ∧
          ∀ i, accumulated i plain = countedBy i (steps ++ [a]) := by
        intro hstep
        refine ⟨plain ++ [a.plain], ?_, ?_, ?_⟩
        · rw [List.map_append]
          exact hsub.append (List.Sublist.refl _)
        · rw [run_append, hplain, Option.bind_some, run, hstep]
          rfl
        · intro i
          rw [CounterMonitor.accumulated_concat, hcount, countedBy, countedBy, List.map_append,
            List.map_singleton, CounterMonitor.accumulated_concat]
      cases a with
      | call st => exact hkeep hlast
      | unregister tid ok =>
          have hm := Option.some.inj hlast
          rcases tryUnregister_clean (wellFormed_run hm₀) (hclean steps tid ok [] m₀ rfl hm₀)
            with h | h
          · exact hkeep (congrArg some (h.symm.trans hm))
          · refine ⟨plain, ?_, ?_, ?_⟩
            · rw [List.map_append]
              exact hsub.trans (List.sublist_append_left _ _)
            · rw [hplain, ← hm, h]
            · intro i
              rw [hcount, countedBy, countedBy, List.map_append, List.map_singleton,
                CounterMonitor.accumulated_concat]
              rfl

end Runs

/-- In every reachable state, an unregistration that throws leaves the sums and the thread as they
were exactly when what it read before the failing read was zero. In a schedule in which every
unregistration meets that condition, every state is one of the schedule without the failed calls, and
the totals hold the count of each event once. -/
theorem failed_unregister_iff (cfg : CounterCfg) :
    (∀ (steps : List RetireStep) (m : CounterMonitor) (tid : ℤ) (ok : ReadPattern),
      run (RetireStep.step cfg) .initial steps = some m →
      (Untouched cfg m tid ok ↔
        ((m.threads tid).active = true → CleanPattern cfg (m.threads tid) ok))) ∧
    ∀ (steps : List RetireStep) (m : CounterMonitor),
      run (RetireStep.step cfg) .initial steps = some m → CleanSchedule cfg steps →
      (∃ plain, plain.Sublist (steps.map RetireStep.plain) ∧
        run (CounterMonitor.step cfg) .initial plain = some m) ∧
      ∀ i < cfg.numCounters + cfg.numSamplers,
        (m.currentCount cfg i).value = BitVec.ofNat 64 (countedBy i steps) := by
  constructor
  · intro steps m tid ok hrun
    exact untouched_iff ((wellFormed_run hrun).shaped tid)
  · intro steps m hrun hclean
    obtain ⟨plain, hsub, hplain, hcount⟩ := exists_plain_run hrun hclean
    refine ⟨⟨plain, hsub, hplain⟩, ?_⟩
    intro i hi
    rw [(CounterMonitor.run_counts hplain).current i hi, hcount]

/-- Two counters; the first has counted 5 when the read of the second fails. -/
def failingPattern : ReadPattern := ⟨true, fun k => k == 0⟩

def failingSchedule : List RetireStep :=
  [.call (.registerThread 7), .call (.count 7 0 ⟨5, 1, 1⟩), .unregister 7 failingPattern]

/-- The failed call has added the count of the first event, which is still open: it is in the total
twice, also after the thread was unregistered successfully. -/
theorem failed_unregister_counts_twice :
    let cfg : CounterCfg := ⟨2, 0, false⟩
    ∃ before after done, run (RetireStep.step cfg) .initial (failingSchedule.take 2) = some before ∧
      ¬ Untouched cfg before 7 failingPattern ∧
      run (RetireStep.step cfg) .initial failingSchedule = some after ∧
      (after.currentCount cfg 0).value = 10 ∧
      run (RetireStep.step cfg) .initial (failingSchedule ++ [.call (.unregisterThread 7)]) =
        some done ∧
      (done.currentCount cfg 0).value = 10 ∧
      countedBy 0 (failingSchedule ++ [.call (.unregisterThread 7)]) = 5 := by
  intro cfg
  refine ⟨_, _, _, rfl, ?_, rfl, rfl, rfl, rfl, rfl⟩
  intro h
  have hretired := (h rfl).1
  exact absurd (congrArg (fun r => (r 0).value) hretired) (by decide)

theorem failed_unregister_iff_first :
    let cfg : CounterCfg := ⟨2, 0, false⟩
    ∃ m, run (RetireStep.step cfg) .initial (failingSchedule.take 2) = some m ∧
      Untouched cfg m 7 ⟨true, fun _ => false⟩ := by
  intro cfg
  refine ⟨_, rfl, ?_⟩
  apply ((failed_unregister_iff cfg).1 (failingSchedule.take 2) _ 7 _ rfl).mpr
  intro _ _ _ p hp
  cases hp

end RdSpeTool
