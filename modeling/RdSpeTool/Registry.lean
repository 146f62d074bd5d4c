import RdSpeTool.ThreadShape

/-!
# Which threads a session holds active

Registration appends a context and unregistration retires one; every other event leaves the active
tids as they are. At most one context of a tid is active.
-/

namespace RdSpeTool

open ProbeTable

def Session.activeTids (s : Session) : List ℤ := (s.threads.filter Thread.active).map Thread.tid

theorem rdRegisterThreadLocked_eq_zero_iff (s : Session) (arg : ThreadRegister)
    (env : RegisterEnv) : (rdRegisterThreadLocked s arg env).1 = 0 ↔ RegisterOk s arg env := by
  constructor
  · intro hret
    by_contra hnot
    obtain ⟨ret, he, hneg | hsetup⟩ := rdRegisterThreadLocked_of_not_ok hnot
    · rw [he] at hret
      exact hneg.ne hret
    · rw [he] at hret
      exact rdThreadSetupEvents_ne_error_zero _ _ _ (hsetup.trans (congrArg Except.error hret))
  · intro h
    rw [rdRegisterThreadLocked_of_ok h]

namespace Session

variable {s : Session}

theorem mem_activeTids {tid : ℤ} :
    tid ∈ s.activeTids ↔ ∃ th ∈ s.threads, th.active = true ∧ th.tid = tid := by
  simp [activeTids, and_assoc]

theorem rdFindActiveThreadByTid_eq_none {tid : ℤ} :
    rdFindActiveThreadByTid s tid = none ↔ tid ∉ s.activeTids := by
  unfold rdFindActiveThreadByTid
  rw [List.findIdx?_eq_none_iff, mem_activeTids]
  constructor
  · rintro h ⟨th, hth, ha, rfl⟩
    simpa [ha] using h th hth
  · intro h th hth
    by_contra hne
    simp only [Bool.not_eq_false, decide_eq_true_eq] at hne
    exact h ⟨th, hth, hne.2, hne.1⟩

/-- Lists of threads that agree on tids and activity hold the same active tids. -/
theorem activeTids_congr {s' : Session}
    (h : s'.threads.map (fun th => (th.tid, th.active)) =
      s.threads.map fun th => (th.tid, th.active)) : s'.activeTids = s.activeTids := by
  have hproj : ∀ ths : List Thread, (ths.filter Thread.active).map Thread.tid =
      ((ths.map fun th => (th.tid, th.active)).filter Prod.snd).map Prod.fst := by
    intro ths
    rw [List.filter_map, List.map_map]
    rfl
  unfold activeTids
  rw [hproj, hproj, h]

theorem activeTids_register {arg : ThreadRegister} {env : RegisterEnv}
    (h : (rdRegisterThreadLocked s arg env).1 = 0) :
    arg.tid ∉ s.activeTids ∧
      (rdRegisterThreadLocked s arg env).2.activeTids = s.activeTids ++ [arg.tid] := by
  have hok := (rdRegisterThreadLocked_eq_zero_iff s arg env).mp h
  refine ⟨rdFindActiveThreadByTid_eq_none.mp hok.notFound, ?_⟩
  rw [rdRegisterThreadLocked_of_ok hok]
  unfold activeTids
  rw [List.filter_append, List.map_append, newThread_eq]
  rfl

/-- Retiring the first active context of a tid takes that tid out once. -/
theorem activeTids_modify (tid : ℤ) {ths : List Thread}
    (hlive : ∀ th ∈ ths, th.active = true → th.liveDetached = false) {k : ℕ}
    (hk : ths.findIdx? (fun th => th.tid = tid ∧ th.active) = some k) :
    ((ths.modify k rdThreadDetachLive).filter Thread.active).map Thread.tid =
      ((ths.filter Thread.active).map Thread.tid).erase tid := by
  induction ths generalizing k with
  | nil => cases hk
  | cons th rest ih =>
      rw [List.findIdx?_cons] at hk
      by_cases hth : th.tid = tid ∧ th.active = true
      · -- the head is retired
        rw [if_pos (by simpa using hth)] at hk
        obtain rfl : 0 = k := Option.some.inj hk
        have hoff : (rdThreadDetachLive th).active = false := by
          simp [rdThreadDetachLive, hlive th List.mem_cons_self hth.2]
        simp [List.modify_zero_cons, hoff, hth.2, hth.1]
      · rw [if_neg (by simpa using hth)] at hk
        obtain ⟨j, hj, rfl⟩ := Option.map_eq_some_iff.mp hk
        have hrest := ih (fun th' hth' => hlive th' (List.mem_cons_of_mem _ hth')) hj
        rw [List.modify_succ_cons]
        by_cases ha : th.active = true
        · have hne : th.tid ≠ tid := fun he => hth ⟨he, ha⟩
          rw [List.filter_cons_of_pos ha, List.filter_cons_of_pos ha, List.map_cons, List.map_cons,
            List.erase_cons_tail (by simpa using hne), hrest]
        · rw [List.filter_cons_of_neg ha, List.filter_cons_of_neg ha, hrest]

/-- An unregistration succeeds exactly on an active tid. -/
theorem activeTids_unregister (h : s.Reachable) (tid : ℤ) :
    (tid ∈ s.activeTids ∧ (rdUnregisterThreadLocked s tid).1 = 0 ∧
      (rdUnregisterThreadLocked s tid).2.activeTids = s.activeTids.erase tid) ∨
    (tid ∉ s.activeTids ∧ rdUnregisterThreadLocked s tid = (-enoent, s)) := by
  unfold rdUnregisterThreadLocked
  cases hf : rdFindActiveThreadByTid s tid with
  | none => exact Or.inr ⟨rdFindActiveThreadByTid_eq_none.mp hf, rfl⟩
  | some k =>
      refine Or.inl ⟨?_, rfl, ?_⟩
      · by_contra hmem
        rw [rdFindActiveThreadByTid_eq_none.mpr hmem] at hf
        cases hf
      · exact activeTids_modify tid (fun th hth => (h.shaped hth).liveDetached) hf

def OtherEvent : SessionEvent → Prop
  | .ioctl (.registerThread _ _) => False
  | .ioctl (.unregisterThread _) => False
  | _ => True

theorem activeTids_other (h : s.Reachable) {e : SessionEvent} (he : OtherEvent e) :
    (s.step e).activeTids = s.activeTids := by
  have hsame : ∀ s' : Session, s'.threads = s.threads → s'.activeTids = s.activeTids := by
    intro s' hs'
    unfold activeTids
    rw [hs']
  have hwindow : ∀ b, (s.setWindow b).activeTids = s.activeTids := by
    intro b
    apply activeTids_congr
    change (s.threads.map _).map _ = _
    rw [List.map_map]
    apply List.map_congr_left
    intro th _
    simp only [Function.comp_apply]
    split_ifs <;> rfl
  cases e with
  | hit k ht =>
      apply activeTids_congr
      apply map_modify_eq_map
      intro th _
      have hf := frame_hit s.toSessionCtl th ht
      exact Prod.ext (congrArg Frame.tid hf) (congrArg Frame.active hf)
  | ioctl cmd =>
      cases cmd with
      | configSession cfg => exact hsame _ (rdSessionConfigLocked_threads s cfg)
      | loadTargets targets memdupRet allocOk =>
          exact hsame _ (rdLoadTargetsLocked_threads s targets memdupRet allocOk)
      | registerThread arg env => exact he.elim
      | unregisterThread tid => exact he.elim
      | startWindow => exact hwindow true
      | stopWindow => exact hwindow false
      | resetSession mods =>
          change (rdResetSessionLocked s mods).2.activeTids = s.activeTids
          unfold rdResetSessionLocked
          split_ifs
          · rfl
          apply activeTids_congr
          apply List.ext_getElem?
          intro j
          rw [List.getElem?_map, List.getElem?_map, getElem?_resetThreads]
          cases hth : s.threads[j]? with
          | none => rfl
          | some th =>
              have hf := (h.shaped (List.mem_of_getElem? hth)).frame_reset (mods (0 + j))
              exact congrArg some (Prod.ext (congrArg Frame.tid hf) (congrArg Frame.active hf))

theorem Reachable.activeTids_nodup (h : s.Reachable) : s.activeTids.Nodup := by
  have hboth : s.Reachable ∧ s.activeTids.Nodup := by
    refine h.induction (P := fun s => s.Reachable ∧ s.activeTids.Nodup) ?_ ?_
    · exact fun tgid => ⟨⟨tgid, [], rfl⟩, List.nodup_nil⟩
    rintro s e ⟨hs, hn⟩
    refine ⟨hs.step e, ?_⟩
    by_cases he : OtherEvent e
    · rw [activeTids_other hs he]
      exact hn
    · cases e with
      | hit k ht => exact absurd trivial he
      | ioctl cmd =>
          cases cmd with
          | registerThread arg env =>
              change (rdRegisterThreadLocked s arg env).2.activeTids.Nodup
              by_cases hret : (rdRegisterThreadLocked s arg env).1 = 0
              · obtain ⟨hnot, happ⟩ := activeTids_register hret
                rw [happ, ← List.concat_eq_append]
                exact hn.concat hnot
              · rw [rdRegisterThreadLocked_snd_of_not_ok
                  (mt (rdRegisterThreadLocked_eq_zero_iff s arg env).mpr hret)]
                exact hn
          | unregisterThread tid =>
              change (rdUnregisterThreadLocked s tid).2.activeTids.Nodup
              rcases activeTids_unregister hs tid with ⟨-, -, herase⟩ | ⟨-, hsame⟩
              · rw [herase]
                exact hn.erase tid
              · rw [hsame]
                exact hn
          | configSession cfg => exact absurd trivial he
          | loadTargets targets memdupRet allocOk => exact absurd trivial he
          | startWindow => exact absurd trivial he
          | stopWindow => exact absurd trivial he
          | resetSession mods => exact absurd trivial he
  exact hboth.2

end Session

end RdSpeTool
