import RdSpeTool.CallchainWalk
import RdSpeTool.ContextTable
import RdSpeTool.Results

/-!
# Integrity of the context table

The table only grows between resets, so an id that was given out keeps its chain, and a request
that found the table full stays refused. Ids in slots and pair keys never point past the table.
-/

namespace RdSpeTool

open ProbeTable

namespace ContextView

variable {v v' : ContextView} {key key' : List U64} {id id' : ℕ}

/-- Chains in use form a prefix of the table and are pairwise different. -/
def Sound (v : ContextView) : Prop :=
  Filled ContextEntry.used ContextEntry.ips v.contexts v.contextUsed

/-- What the table says about a request: the entry of an id, or why there is none. -/
def Answers (v : ContextView) (key : List U64) (id : ℕ) : Prop :=
  (key ≠ [] ∧ ∃ i, id = i + 1 ∧ v.contexts[i]? = some ⟨true, key⟩) ∨
    (id = 0 ∧ (key = [] ∨ ∀ e ∈ v.contexts, e.used = true ∧ e.ips ≠ key))

theorem entry_eq {e : ContextEntry} (hu : e.used = true) (hk : (e.ips == key) = true) :
    e = ⟨true, key⟩ := by
  obtain ⟨used, ips⟩ := e
  obtain rfl : used = true := hu
  obtain rfl : ips = key := by simpa using hk
  rfl

/-- A request is answered by the table it leaves, which extends the old one. -/
theorem lookup_spec (h : v.Sound) (key : List U64) :
    (v.lookup key).1.Sound ∧ (v.lookup key).1.Answers key (v.lookup key).2 ∧
      Extends ContextEntry.used v.contexts (v.lookup key).1.contexts ∧
      v.contextUsed ≤ (v.lookup key).1.contextUsed ∧
      (v.lookup key).2 ≤ (v.lookup key).1.contextUsed := by
  unfold lookup
  by_cases hkey : key = []
  · rw [if_pos hkey]
    exact ⟨h, Or.inr ⟨rfl, Or.inl hkey⟩, .refl _ _, le_rfl, Nat.zero_le _⟩
  rw [if_neg hkey]
  cases hp : probe ContextEntry.used (fun e => e.ips == key) v.contexts 0 none with
  | found i =>
      obtain ⟨k, e, hi, he, hu, hhit⟩ := probe_found hp
      obtain rfl : i = k := by omega
      rw [entry_eq hu hhit] at he
      exact ⟨h, Or.inl ⟨hkey, i, rfl, he⟩, .refl _ _, le_rfl, (h.used_iff i _ he).mp rfl⟩
  | free i =>
      obtain ⟨hi, hlt⟩ := h.probe_free_eq hp
      have hfilled := h.insert hp (fun _ => ⟨true, key⟩) (fun _ => rfl) (by
        intro a b _ hk
        simpa using hk.symm)
      refine ⟨hfilled, Or.inl ⟨hkey, i, rfl, ?_⟩, .of_probe hp _, Nat.le_succ _, ?_⟩
      · have hget := List.getElem?_eq_getElem (hi ▸ hlt : i < v.contexts.length)
        simp [List.getElem?_modify_eq, hget]
      · exact Nat.succ_le_succ hi.le
  | full =>
      refine ⟨h, Or.inr ⟨rfl, Or.inr ?_⟩, .refl _ _, le_rfl, Nat.zero_le _⟩
      intro e he
      have hu := probe_full hp e he
      have hne := probe_absent (fun m hm => by rw [hp] at hm; cases hm) e he hu
      exact ⟨hu, by simpa using hne⟩

/-- A request without an answer leaves the table as it was. -/
theorem lookup_eq_zero (h : (v.lookup key).2 = 0) : (v.lookup key).1 = v := by
  revert h
  unfold lookup
  split_ifs
  · exact fun _ => rfl
  · cases probe ContextEntry.used (fun e => e.ips == key) v.contexts 0 none with
    | found i => exact fun _ => rfl
    | free i => exact fun h => absurd h (Nat.succ_ne_zero i)
    | full => exact fun _ => rfl

/-- Asking again gives the answer the table holds. -/
theorem Answers.lookup_eq (h : v.Answers key id) (hs : v.Sound) : (v.lookup key).2 = id := by
  unfold lookup
  rcases h with ⟨hkey, i, rfl, hi⟩ | ⟨rfl, hkey | hfull⟩
  · have hp : probe ContextEntry.used (fun e => e.ips == key) v.contexts 0 none = .found i :=
      Filled.probe_eq_found hs hi rfl (by simp) (by simp)
    rw [if_neg hkey, hp]
  · rw [if_pos hkey]
  · by_cases hkey : key = []
    · rw [if_pos hkey]
    rw [if_neg hkey]
    cases hp : probe ContextEntry.used (fun e => e.ips == key) v.contexts 0 none with
    | found i =>
        obtain ⟨k, e, -, he, -, hhit⟩ := probe_found hp
        exact absurd (by simpa using hhit) (hfull e (List.mem_of_getElem? he)).2
    | free i =>
        obtain ⟨k, e, -, he, hu, -⟩ := probe_free hp
        rw [(hfull e (List.mem_of_getElem? he)).1] at hu
        cases hu
    | full => rfl

/-- A new chain takes the first free entry. -/
theorem lookup_new (h : v.Sound) (hkey : key ≠ []) (hroom : v.contextUsed < v.contexts.length)
    (hnew : ∀ e ∈ v.contexts, e.used = true → e.ips ≠ key) :
    v.lookup key = ({ v with
      contexts := v.contexts.modify v.contextUsed fun _ => ⟨true, key⟩
      contextUsed := v.contextUsed + 1 }, v.contextUsed + 1) := by
  have hprobe : probe ContextEntry.used (fun e => e.ips == key) v.contexts 0 none =
      .free v.contextUsed :=
    Filled.probe_eq_free h hroom fun e he hu => by simpa using hnew e he hu
  unfold lookup
  rw [if_neg hkey, hprobe]

theorem Answers.of_extends (h : v.Answers key id)
    (hext : Extends ContextEntry.used v.contexts v'.contexts) : v'.Answers key id := by
  rcases h with ⟨hkey, i, rfl, hi⟩ | ⟨rfl, hkey | hfull⟩
  · exact Or.inl ⟨hkey, i, rfl, hext.2 i _ hi rfl⟩
  · exact Or.inr ⟨rfl, Or.inl hkey⟩
  · have he := hext.eq_of_full fun e he => (hfull e he).1
    exact Or.inr ⟨rfl, Or.inr (he.symm ▸ hfull)⟩

/-- One id is one chain. -/
theorem Answers.key_eq (h : v.Answers key id) (h' : v.Answers key' id) (hid : id ≠ 0) :
    key = key' := by
  rcases h with ⟨-, i, rfl, hi⟩ | ⟨rfl, -⟩
  · rcases h' with ⟨-, j, hj, hj'⟩ | ⟨h0, -⟩
    · obtain rfl : i = j := by omega
      exact (ContextEntry.mk.inj (Option.some.inj (hi.symm.trans hj'))).2
    · exact absurd h0 hid
  · exact absurd rfl hid

theorem request_spec (h : v.Sound) (key : Option (List U64)) :
    (v.request key).1.Sound ∧
      Extends ContextEntry.used v.contexts (v.request key).1.contexts ∧
      v.contextUsed ≤ (v.request key).1.contextUsed ∧
      (v.request key).2 ≤ (v.request key).1.contextUsed := by
  cases key with
  | none => exact ⟨h, .refl _ _, le_rfl, Nat.zero_le _⟩
  | some key =>
      obtain ⟨h1, -, h2⟩ := lookup_spec h key
      exact ⟨h1, h2⟩

end ContextView

/-! ## Every reachable thread -/

/-- The table is sound, and no id in a slot or a pair key points past it. -/
structure ContextsOk (th : Thread) : Prop where
  sound : th.contextView.Sound
  slots : ∀ id ∈ th.contextView.ids, id ≤ th.contextUsed
  pairs : ∀ e ∈ th.pairHist, e.used = true →
    e.seedContextId ≤ th.contextUsed ∧ e.reuseContextId ≤ th.contextUsed

/-- Adding a pair keeps a bound on the ids of the keys. -/
theorem Tables.addPair_ids {t : Tables} {n : ℕ} {key : PairKey} {bucket : ℕ}
    (h : ∀ e ∈ t.pairHist, e.used = true → e.seedContextId ≤ n ∧ e.reuseContextId ≤ n)
    (hkey : key.seedContextId ≤ n ∧ key.reuseContextId ≤ n) :
    ∀ e ∈ (t.addPair key bucket).pairHist, e.used = true →
      e.seedContextId ≤ n ∧ e.reuseContextId ≤ n := by
  unfold Tables.addPair
  split_ifs
  · exact h
  · cases probe PairHistEntry.used (fun e => e.key == key) t.pairHist 0 none with
    | found i =>
        intro e he hu
        obtain ⟨j, hj⟩ := List.mem_iff_getElem?.mp he
        obtain ⟨e', he', ⟨-, rfl⟩ | ⟨-, rfl⟩⟩ := getElem?_modify_cases hj
        · exact h e' (List.mem_of_getElem? he') hu
        · exact h e (List.mem_of_getElem? he') hu
    | free i =>
        intro e he hu
        obtain ⟨j, hj⟩ := List.mem_iff_getElem?.mp he
        obtain ⟨e', he', ⟨-, rfl⟩ | ⟨-, rfl⟩⟩ := getElem?_modify_cases hj
        · exact hkey
        · exact h e (List.mem_of_getElem? he') hu
    | full => exact h

/-- A recorded reuse uses the id its request got. -/
theorem reuseKey_id {c : SessionCtl} {th : Thread} {i : ℕ} {regs : Option PtRegs} {env : HitEnv}
    {x : Cell} {a : U64} (h : th.meter.recorded c.meterCtl i env = some (x, a)) :
    (contextOf c th (captureChain c th env.user regs).2).2 =
      (th.contextView.request (reuseKey c th i regs env)).2 := by
  unfold reuseKey
  rw [h]
  exact (view_contextOf c th (captureChain c th env.user regs).2).2

namespace ContextsOk

variable {c : SessionCtl} {th : Thread}

theorem hit (h : ContextsOk th) (ht : Hit) : ContextsOk (th.hit c ht) := by
  have hstored := view_hit c th ht
  obtain ⟨hsound, hext, hgrow, hid⟩ := ContextView.request_spec h.sound (th.contextKey c ht)
  obtain ⟨htable, hused⟩ := hstored.table
  have hused' : (th.hit c ht).contextUsed =
    (th.contextView.request (th.contextKey c ht)).1.contextUsed := hused
  refine ⟨?_, ?_, ?_⟩
  · unfold ContextView.Sound
    rw [htable, hused]
    exact hsound
  · rw [hused']
    refine hstored.forall_ids ?_ (Nat.zero_le _) hid
    rw [ContextView.request_ids]
    exact fun id hmem => (h.slots id hmem).trans hgrow
  · rw [hused']
    have hold : ∀ e ∈ th.pairHist, e.used = true →
        e.seedContextId ≤ (th.contextView.request (th.contextKey c ht)).1.contextUsed ∧
          e.reuseContextId ≤ (th.contextView.request (th.contextKey c ht)).1.contextUsed :=
      fun e he hu => ⟨(h.pairs e he hu).1.trans hgrow, (h.pairs e he hu).2.trans hgrow⟩
    cases ht with
    | bp t regs env =>
        have htab := congrArg Tables.pairHist (tables_rdHandleBpHit c th t regs env)
        change (rdHandleBpHit c th t regs env).pairHist = th.pairHist at htab
        change ∀ e ∈ (rdHandleBpHit c th t regs env).pairHist, _
        rw [htab]
        exact hold
    | wp i regs env =>
        change ∀ e ∈ (rdHandleWpHit c th i regs env).pairHist, _
        rcases tables_rdHandleWpHit c th i regs env with ⟨-, htab⟩ |
          ⟨slot, a, ctx, event, hslot, hrec, hctx, -, htab⟩
        · have hpair := congrArg Tables.pairHist htab
          change (rdHandleWpHit c th i regs env).pairHist = th.pairHist at hpair
          rw [hpair]
          exact hold
        · have hpair := congrArg Tables.pairHist htab
          rw [(Tables.addEvent_pairs _ c event).1] at hpair
          change (rdHandleWpHit c th i regs env).pairHist = _ at hpair
          rw [hpair]
          refine Tables.addPair_ids hold ⟨?_, ?_⟩
          · refine (h.slots _ ?_).trans hgrow
            exact List.mem_map_of_mem (List.mem_of_getElem? hslot)
          · change ctx ≤ _
            rw [hctx, reuseKey_id hrec]
            exact hid

theorem of_empty (hcontexts : th.contexts = List.replicate th.contexts.length .zero)
    (hused : th.contextUsed = 0) (hslots : ∀ s ∈ th.slots, s.seedContextId = 0)
    (hpairs : ∀ e ∈ th.pairHist, e.used = false) : ContextsOk th := by
  refine ⟨?_, ?_, ?_⟩
  · change Filled ContextEntry.used ContextEntry.ips th.contexts th.contextUsed
    rw [hcontexts, hused]
    exact Filled.replicate _ _ rfl
  · intro id hid
    obtain ⟨s, hs, rfl⟩ := List.mem_map.mp hid
    rw [hslots s hs]
    exact Nat.zero_le _
  · intro e he hu
    rw [hpairs e he] at hu
    cases hu

theorem newThread (c : SessionCtl) (arg : ThreadRegister) : ContextsOk (newThread c arg) := by
  rw [newThread_eq]
  refine of_empty ?_ rfl ?_ ?_
  · simp [setupThread, Thread.setEvents]
  · intro s hs
    obtain ⟨s', hs', rfl⟩ := List.mem_map.mp hs
    obtain ⟨i, -, rfl⟩ := List.mem_map.mp hs'
    rfl
  · intro e he
    rw [List.eq_of_mem_replicate he]
    rfl

theorem wipe (p : Thread) : ContextsOk p.wipe := by
  refine of_empty ?_ rfl ?_ ?_
  · simp [Thread.wipe]
  · intro s hs
    obtain ⟨s', -, rfl⟩ := List.mem_map.mp hs
    rfl
  · intro e he
    obtain ⟨e', -, rfl⟩ := List.mem_map.mp he
    rfl

theorem step {c' : SessionCtl} {th' : Thread} (hs : Shaped c th) (h : ContextsOk th)
    (hstep : ThreadStep c th c' th') : ContextsOk th' := by
  cases hstep with
  | same => exact h
  | hit ht _ => exact h.hit ht
  | window b =>
      unfold Thread.window
      split_ifs
      · refine ⟨h.sound, ?_, h.pairs⟩
        intro id hid
        obtain ⟨s, hs, rfl⟩ := List.mem_map.mp hid
        obtain ⟨s', hs', rfl⟩ := List.mem_map.mp hs
        exact h.slots s'.seedContextId (List.mem_map_of_mem hs')
      · exact h
  | reset _ mods =>
      obtain ⟨p, hp, -⟩ := hs.reset_parked mods
      rw [hp]
      exact wipe p
  | detach ha =>
      unfold rdThreadDetachLive
      rw [hs.liveDetached ha]
      refine ⟨h.sound, ?_, h.pairs⟩
      intro id hid
      simp at hid

end ContextsOk

theorem Session.Reachable.contextsOk {s : Session} (h : s.Reachable) {th : Thread}
    (hth : th ∈ s.threads) : ContextsOk th :=
  h.shaped_induction (I := fun _ th => ContextsOk th) (fun c arg _ => ContextsOk.newThread c arg)
    (fun _ _ _ _ _ hs hi hstep => hi.step hs hstep) hth

/-! ## Between two resets -/

namespace Session

variable {s : Session} {k : ℕ} {th : Thread}

def Resets (s : Session) : SessionEvent → Prop
  | .ioctl (.resetSession _) => s.running = false
  | _ => False

def NoReset : Session → List SessionEvent → Prop
  | _, [] => True
  | s, e :: es => ¬ s.Resets e ∧ NoReset (s.step e) es

def contextKey (s : Session) (k : ℕ) : SessionEvent → Option (List U64)
  | .hit j h => if j = k then s.threads[k]?.bind fun th => th.contextKey s.toSessionCtl h else none
  | .ioctl _ => none

/-- Calls of `rd_get_context_id_locked` on thread `k` during a run, with the ids they return. -/
def contextCalls (k : ℕ) : Session → List SessionEvent → List (List U64 × ℕ)
  | _, [] => []
  | s, e :: es =>
      (match s.threads[k]?, s.contextKey k e with
        | some th, some key => [(key, (rdGetContextIdLocked th key).2)]
        | _, _ => []) ++ contextCalls k (s.step e) es

/-- An event that is no reset changes the table by its own lookup at most. -/
theorem step_table (hth : s.threads[k]? = some th) {e : SessionEvent} (he : ¬ s.Resets e) :
    ∃ th', (s.step e).threads[k]? = some th' ∧
      th'.contexts = (th.contextView.request (s.contextKey k e)).1.contexts ∧
      th'.contextUsed = (th.contextView.request (s.contextKey k e)).1.contextUsed := by
  cases e with
  | hit j ht =>
      refine ⟨if j = k then th.hit s.toSessionCtl ht else th, ?_, ?_⟩
      · change (s.threads.modify j fun th => th.hit s.toSessionCtl ht)[k]? = _
        rw [List.getElem?_modify, hth]
        split_ifs <;> rfl
      · simp only [contextKey]
        split_ifs
        · rw [hth]
          exact (view_hit s.toSessionCtl th ht).table
        · exact ⟨rfl, rfl⟩
  | ioctl cmd =>
      have hkeep : ∀ s' : Session, s'.threads = s.threads →
          ∃ th', s'.threads[k]? = some th' ∧ th'.contexts = th.contexts ∧
            th'.contextUsed = th.contextUsed := by
        intro s' hs'
        exact ⟨th, hs' ▸ hth, rfl, rfl⟩
      have hwindow : ∀ b, ∃ th', (s.setWindow b).threads[k]? = some th' ∧
          th'.contexts = th.contexts ∧ th'.contextUsed = th.contextUsed := by
        intro b
        refine ⟨if th.active then th.setEvents b else th, ?_, ?_⟩
        · change (s.threads.map _)[k]? = _
          rw [List.getElem?_map, hth]
          rfl
        · split_ifs <;> exact ⟨rfl, rfl⟩
      change ∃ th', (rdWpctlIoctl s cmd).2.threads[k]? = some th' ∧ th'.contexts = th.contexts ∧
        th'.contextUsed = th.contextUsed
      cases cmd with
      | configSession cfg => exact hkeep _ (rdSessionConfigLocked_threads s cfg)
      | loadTargets targets memdupRet allocOk =>
          exact hkeep _ (rdLoadTargetsLocked_threads s targets memdupRet allocOk)
      | registerThread arg env =>
          rcases rdRegisterThreadLocked_cases s arg env with hc | ⟨-, hc⟩
          · exact hkeep _ (congrArg threads hc)
          · refine ⟨th, ?_, rfl, rfl⟩
            rw [rdWpctlIoctl, hc]
            change (s.threads ++ _)[k]? = some th
            rw [List.getElem?_append_left (List.getElem?_eq_some_iff.mp hth).1, hth]
      | unregisterThread tid =>
          simp only [rdWpctlIoctl, rdUnregisterThreadLocked]
          cases rdFindActiveThreadByTid s tid with
          | none => exact hkeep s rfl
          | some j =>
              refine ⟨if j = k then rdThreadDetachLive th else th, ?_, ?_⟩
              · change (s.threads.modify j rdThreadDetachLive)[k]? = _
                rw [List.getElem?_modify, hth]
                split_ifs <;> rfl
              · unfold rdThreadDetachLive
                split_ifs <;> exact ⟨rfl, rfl⟩
      | startWindow => exact hwindow true
      | stopWindow => exact hwindow false
      | resetSession mods =>
          simp only [Resets, Bool.not_eq_false] at he
          simp only [rdWpctlIoctl, rdResetSessionLocked, he, if_true]
          exact hkeep s rfl

/-- Until a reset the table grows, and answers every call made meanwhile as it was answered. -/
theorem run_table (hth : s.threads[k]? = some th) (hs : th.contextView.Sound)
    (es : List SessionEvent) (hes : s.NoReset es) :
    ∃ th', (s.run es).threads[k]? = some th' ∧ th'.contextView.Sound ∧
      Extends ContextEntry.used th.contexts th'.contexts ∧
      ∀ p ∈ s.contextCalls k es, th'.contextView.Answers p.1 p.2 := by
  induction es generalizing s th with
  | nil => exact ⟨th, hth, hs, .refl _ _, by simp [contextCalls]⟩
  | cons e es ih =>
      obtain ⟨th₁, hth₁, htable, hused⟩ := step_table hth hes.1
      obtain ⟨hsound, hext, -, -⟩ := ContextView.request_spec hs (s.contextKey k e)
      have hs₁ : th₁.contextView.Sound := by
        change Filled ContextEntry.used ContextEntry.ips th₁.contexts th₁.contextUsed
        rw [htable, hused]
        exact hsound
      obtain ⟨th', hth', hs', hext', hcalls⟩ := ih hth₁ hs₁ hes.2
      refine ⟨th', hth', hs', Extends.trans (htable ▸ hext) hext', ?_⟩
      intro p hp
      simp only [contextCalls, hth, List.mem_append] at hp
      rcases hp with hp | hp
      · -- the call of this event, answered by the table it left
        cases hkey : s.contextKey k e with
        | none => simp [hkey] at hp
        | some key =>
            simp only [hkey, List.mem_singleton] at hp
            subst hp
            dsimp only
            rw [(view_rdGetContextIdLocked th key).2]
            have hans := (ContextView.lookup_spec hs key).2.1
            rw [hkey] at htable
            have hgrow : Extends ContextEntry.used (th.contextView.lookup key).1.contexts
                th'.contexts := htable ▸ hext'
            exact hans.of_extends hgrow
      · exact hcalls p hp

end Session

/-- Ids name chains: the table is a prefix of distinct chains, ids that slots and pair keys hold
point into it, and until the next reset equal chains get equal ids and different chains different
ones. Only an empty chain or a full table gives no id. -/
theorem context_table_integrity (s : Session) (h : s.Reachable) (k : ℕ) (th : Thread)
    (hth : s.threads[k]? = some th) :
    (th.contexts.length = maxContexts ∧ th.contextUsed ≤ maxContexts ∧
      (∀ i e, th.contexts[i]? = some e → (e.used = true ↔ i < th.contextUsed)) ∧
      ∀ (i j : ℕ) (a b : ContextEntry), th.contexts[i]? = some a → th.contexts[j]? = some b →
        a.used = true → b.used = true → a.ips = b.ips → i = j) ∧
    (∀ slot ∈ th.slots, slot.state = .armed → slot.seedContextId ≤ th.contextUsed) ∧
    (∀ e ∈ th.pairHist, e.used = true →
      e.seedContextId ≤ th.contextUsed ∧ e.reuseContextId ≤ th.contextUsed) ∧
    (∀ key, (∀ i, (rdGetContextIdLocked th key).2 = i + 1 →
        (rdGetContextIdLocked th key).1.contexts[i]? = some ⟨true, key⟩) ∧
      ((rdGetContextIdLocked th key).2 = 0 → key = [] ∨
        (th.contextUsed = maxContexts ∧ ∀ e ∈ th.contexts, e.ips ≠ key))) ∧
    ∀ es, s.NoReset es →
      (∃ th', (s.run es).threads[k]? = some th' ∧
        ∀ (i : ℕ) (e : ContextEntry), th.contexts[i]? = some e → e.used = true →
          th'.contexts[i]? = some e) ∧
      ∀ p ∈ s.contextCalls k es, ∀ q ∈ s.contextCalls k es,
        (p.1 = q.1 → p.2 = q.2) ∧ (p.1 ≠ q.1 → p.2 ≠ 0 → q.2 ≠ 0 → p.2 ≠ q.2) := by
  have hmem := List.mem_of_getElem? hth
  have hok := h.contextsOk hmem
  have hfilled : Filled ContextEntry.used ContextEntry.ips th.contexts th.contextUsed := hok.sound
  have hlen := (h.shaped hmem).tables.2.2.1
  refine ⟨⟨hlen, hlen ▸ hfilled.le_length, hfilled.used_iff, hfilled.key_inj⟩, ?_, hok.pairs, ?_,
    ?_⟩
  · intro slot hslot _
    exact hok.slots slot.seedContextId (List.mem_map_of_mem hslot)
  · intro key
    obtain ⟨hview, hid⟩ := view_rdGetContextIdLocked th key
    have htable : (rdGetContextIdLocked th key).1.contexts =
        (th.contextView.lookup key).1.contexts := congrArg ContextView.contexts hview
    obtain ⟨-, hans, hext, -⟩ := ContextView.lookup_spec hok.sound key
    rw [hid, htable]
    refine ⟨?_, ?_⟩
    · intro i hi
      rcases hans with ⟨-, j, hj, he⟩ | ⟨h0, -⟩
      · obtain rfl : i = j := by omega
        exact he
      · omega
    · intro h0
      rcases hans with ⟨-, j, hj, -⟩ | ⟨-, hnil | hfull⟩
      · omega
      · exact Or.inl hnil
      · right
        rw [ContextView.lookup_eq_zero h0] at hfull
        rw [← hlen]
        exact ⟨hfilled.eq_length_iff.mpr fun e he => (hfull e he).1, fun e he => (hfull e he).2⟩
  · intro es hes
    obtain ⟨th', hth', hs', hext, hcalls⟩ := Session.run_table hth hok.sound es hes
    refine ⟨⟨th', hth', hext.2⟩, ?_⟩
    intro p hp q hq
    refine ⟨?_, ?_⟩
    · intro he
      have hp' := (hcalls p hp).lookup_eq hs'
      rw [he, (hcalls q hq).lookup_eq hs'] at hp'
      exact hp'.symm
    · intro hne hp0 _ he
      have hq' := hcalls q hq
      rw [← he] at hq'
      exact hne ((hcalls p hp).key_eq hq' hp0)

/-! ## A run with two chains -/

def numberedChain (pc : U64) : List U64 := [pc, 0x0F0E0D0C0B0A0908]

theorem captureChain_numberedMem {c : SessionCtl} (hmode : c.callchainMode = .fp) (th : Thread)
    (pc : U64) (hwalk : walkLoop numberedMem (some maxCallchainDepth) 4 [pc] 0x2000 =
      some (numberedChain pc, false)) (hpc : pc ≠ 0) :
    captureChain c th numberedMem (some { smallRegs with pc := pc }) = (th, numberedChain pc) := by
  have huser : smallRegs.userMode = true := by decide
  have hcapture := rdCaptureCallchain_walk (r := { smallRegs with pc := pc }) th huser hpc
    (walkLoop_limited hwalk)
  exact (if_pos hmode).trans hcapture

theorem newThread_contexts (c : SessionCtl) (arg : ThreadRegister) :
    (newThread c arg).contexts = List.replicate maxContexts .zero ∧
      (newThread c arg).contextUsed = 0 := by
  rw [newThread_eq]
  exact ⟨rfl, rfl⟩

theorem contextKey_load : (newThread (smallSession 1).toSessionCtl smallThread).contextKey
    (smallSession 1).toSessionCtl (.bp 0 (some smallRegs) (numberedEnv 5)) =
      some (numberedChain 0x400200) := by
  have hcapture := captureChain_numberedMem (c := (smallSession 1).toSessionCtl) rfl
    (newThread (smallSession 1).toSessionCtl smallThread) 0x400200 (by decide) (by decide)
  change captureChain _ _ (numberedEnv 5).user (some smallRegs) = _ at hcapture
  have htarget : (smallSession 1).targets[0]? = some loadTarget := rfl
  simp only [Thread.contextKey, seedKey, htarget, hcapture]
  rfl

/-- The first chain of a thread takes the first entry. -/
theorem lookup_first {th : Thread} {key : List U64}
    (hblank : th.contexts = List.replicate maxContexts .zero) (hnone : th.contextUsed = 0)
    (hne : key ≠ []) : th.contextView.lookup key = ({ th.contextView with
      contexts := (List.replicate maxContexts .zero).modify 0 fun _ => ⟨true, key⟩
      contextUsed := 1 }, 1) := by
  have hsound : th.contextView.Sound := by
    change Filled ContextEntry.used ContextEntry.ips th.contexts th.contextUsed
    rw [hblank, hnone]
    exact Filled.replicate _ _ rfl
  have hroom : th.contextUsed < th.contexts.length := by
    rw [hblank, hnone, List.length_replicate]
    decide
  have hlookup := ContextView.lookup_new hsound hne hroom fun e he hu => by
    change e ∈ th.contexts at he
    rw [hblank] at he
    rw [List.eq_of_mem_replicate he] at hu
    cases hu
  rw [hlookup]
  dsimp only
  rw [hblank, hnone]

theorem contexts_hit_blank {c : SessionCtl} {th : Thread} {ht : Hit} {key : List U64}
    (hblank : th.contexts = List.replicate maxContexts .zero) (hnone : th.contextUsed = 0)
    (hkey : th.contextKey c ht = some key) (hne : key ≠ []) :
    (th.hit c ht).contextUsed = 1 ∧ (th.hit c ht).contexts =
      (List.replicate maxContexts .zero).modify 0 fun _ => ⟨true, key⟩ := by
  obtain ⟨hcontexts, hused⟩ := (view_hit c th ht).table
  rw [hkey, ContextView.request, lookup_first hblank hnone hne] at hcontexts hused
  exact ⟨hused, hcontexts⟩

theorem contexts_hit_none {c : SessionCtl} {th : Thread} {ht : Hit}
    (hkey : th.contextKey c ht = none) :
    (th.hit c ht).contextUsed = th.contextUsed ∧ (th.hit c ht).contexts = th.contexts := by
  obtain ⟨hcontexts, hused⟩ := (view_hit c th ht).table
  rw [hkey] at hcontexts hused
  exact ⟨hused, hcontexts⟩

theorem contextKey_skipped {c : SessionCtl} {th : Thread} {i : ℕ} {regs : Option PtRegs}
    {env : HitEnv} (h : th.meter.recorded c.meterCtl i env = none) :
    th.contextKey c (.wp i regs env) = none := by
  change reuseKey c th i regs env = none
  unfold reuseKey
  rw [h]

theorem contextKey_recorded {c : SessionCtl} {th : Thread} {i : ℕ} {regs : Option PtRegs}
    {env : HitEnv} (h : (th.meter.recorded c.meterCtl i env).isSome) :
    th.contextKey c (.wp i regs env) = chainKey c (captureChain c th env.user regs).2 := by
  obtain ⟨p, hp⟩ := Option.isSome_iff_exists.mp h
  change reuseKey c th i regs env = _
  unfold reuseKey
  rw [hp]

theorem foldl_reuseHits_append {β : Type} (f : β → Hit → β) (b : β) (ht : Hit) :
    (reuseHits.take 2 ++ [ht]).foldl f b = f ((reuseHits.take 2).foldl f b) ht := by
  rw [List.foldl_append]
  rfl

theorem foldl_reuseHits {β : Type} (f : β → Hit → β) (b : β) : (reuseHits.take 2).foldl f b =
    f (f b (.bp 0 (some smallRegs) (numberedEnv 5))) (.wp 0 (some smallRegs) (numberedEnv 6)) := rfl

theorem watchedThread_eq : watchedThread 1 =
    ((newThread (smallSession 1).toSessionCtl smallThread).hit (smallSession 1).toSessionCtl
      (.bp 0 (some smallRegs) (numberedEnv 5))).hit (smallSession 1).toSessionCtl
        (.wp 0 (some smallRegs) (numberedEnv 6)) :=
  foldl_reuseHits (Thread.hit (smallSession 1).toSessionCtl)
    (newThread (smallSession 1).toSessionCtl smallThread)

theorem contextKey_ownAccess :
    ((newThread (smallSession 1).toSessionCtl smallThread).hit (smallSession 1).toSessionCtl
      (.bp 0 (some smallRegs) (numberedEnv 5))).contextKey (smallSession 1).toSessionCtl
        (.wp 0 (some smallRegs) (numberedEnv 6)) = none := by
  have hmeter : ((newThread (smallSession 1).toSessionCtl smallThread).meter.hit
      (smallSession 1).meterCtl (.bp 0 (some smallRegs) (numberedEnv 5))).recorded
        (smallSession 1).meterCtl 0 (numberedEnv 6) = none := rfl
  rw [← meter_hit] at hmeter
  exact contextKey_skipped hmeter

/-- Only the load has asked for an id when the watchpoint has reported its own access. -/
theorem watchedThread_contexts : (watchedThread 1).contextUsed = 1 ∧
    (watchedThread 1).contexts =
      (List.replicate maxContexts .zero).modify 0 fun _ => ⟨true, numberedChain 0x400200⟩ := by
  obtain ⟨hblank, hnone⟩ := newThread_contexts (smallSession 1).toSessionCtl smallThread
  obtain ⟨hused, hcontexts⟩ := contexts_hit_blank hblank hnone contextKey_load (by decide)
  obtain ⟨hused', hcontexts'⟩ := contexts_hit_none contextKey_ownAccess
  rw [watchedThread_eq]
  exact ⟨hused'.trans hused, hcontexts'.trans hcontexts⟩

def otherReuse : Hit := .wp 0 (some { smallRegs with pc := 0x400204 }) (numberedEnv 9)

theorem captureChain_otherReuse : captureChain (smallSession 1).toSessionCtl (watchedThread 1)
    numberedMem (some { smallRegs with pc := 0x400204 }) =
      (watchedThread 1, numberedChain 0x400204) :=
  captureChain_numberedMem rfl _ 0x400204 (by decide) (by decide)

theorem contextKey_otherReuse : (watchedThread 1).contextKey (smallSession 1).toSessionCtl
    otherReuse = some (numberedChain 0x400204) := by
  have hrec := congrArg Option.isSome (watchedThread_recorded 1 (by decide))
  rw [Option.isSome_map] at hrec
  have hcapture := captureChain_otherReuse
  generalize watchedThread 1 = th at hrec hcapture ⊢
  refine (contextKey_recorded hrec).trans ?_
  change chainKey _ (captureChain _ th numberedMem _).2 = _
  rw [hcapture]
  rfl

/-- The second chain takes the second entry. -/
theorem lookup_second {th : Thread} {key key' : List U64} (hs : th.contextView.Sound)
    (hused : th.contextUsed = 1) (hcontexts : th.contexts =
      (List.replicate maxContexts .zero).modify 0 fun _ => ⟨true, key⟩)
    (hne : key' ≠ []) (hother : key ≠ key') :
    th.contextView.lookup key' = ({ th.contextView with
      contexts := th.contexts.modify 1 fun _ => ⟨true, key'⟩
      contextUsed := 2 }, 2) := by
  have hroom : th.contextUsed < th.contexts.length := by
    rw [hused, hcontexts, List.length_modify, List.length_replicate]
    decide
  have hlookup := ContextView.lookup_new hs hne hroom fun e he hu => by
    change e ∈ th.contexts at he
    rw [hcontexts] at he
    obtain ⟨i, hi⟩ := List.mem_iff_getElem?.mp he
    obtain ⟨e', he', ⟨-, rfl⟩ | ⟨-, rfl⟩⟩ := getElem?_modify_cases hi
    · exact hother
    · rw [List.eq_of_mem_replicate (List.mem_of_getElem? he')] at hu
      cases hu
  rw [hlookup]
  dsimp only
  rw [hused]

theorem contexts_hit_second {c : SessionCtl} {th : Thread} {ht : Hit} {key key' : List U64}
    (hs : th.contextView.Sound) (hused : th.contextUsed = 1) (hcontexts : th.contexts =
      (List.replicate maxContexts .zero).modify 0 fun _ => ⟨true, key⟩)
    (hkey : th.contextKey c ht = some key') (hne : key' ≠ []) (hother : key ≠ key') :
    (th.hit c ht).contexts[1]? = some ⟨true, key'⟩ := by
  have htable := (view_hit c th ht).table.1
  rw [hkey, ContextView.request, lookup_second hs hused hcontexts hne hother] at htable
  change (th.hit c ht).contexts = th.contexts.modify 1 _ at htable
  rw [htable, hcontexts]
  rfl

theorem Session.contextCalls_hit (c : SessionCtl) (th : Thread) (ht : Hit)
    (es : List SessionEvent) : (⟨c, [th]⟩ : Session).contextCalls 0 (.hit 0 ht :: es) =
      ((th.contextKey c ht).map fun key => (key, (th.contextView.lookup key).2)).toList ++
        (⟨c, [th.hit c ht]⟩ : Session).contextCalls 0 es := by
  have hkey : (⟨c, [th]⟩ : Session).contextKey 0 (.hit 0 ht) = th.contextKey c ht := rfl
  have hstep : (⟨c, [th]⟩ : Session).step (.hit 0 ht) = ⟨c, [th.hit c ht]⟩ := rfl
  rw [contextCalls, hkey, hstep]
  cases th.contextKey c ht with
  | none => rfl
  | some key =>
      change [(key, (rdGetContextIdLocked th key).2)] ++ _ = _
      rw [(view_rdGetContextIdLocked th key).2]
      rfl

def twoChains : List SessionEvent := (reuseHits.take 2 ++ [otherReuse]).map (SessionEvent.hit 0)

theorem contextCalls_twoChains : (smallSession 1).contextCalls 0 twoChains =
    [(numberedChain 0x400200, 1), (numberedChain 0x400204, 2)] := by
  obtain ⟨hblank, hnone⟩ := newThread_contexts (smallSession 1).toSessionCtl smallThread
  obtain ⟨hused, hcontexts⟩ := watchedThread_contexts
  have hsound := ((watchedThread_reachable 1 (by decide)).contextsOk
    (List.mem_singleton_self _)).sound
  have hstart : smallSession 1 = ⟨(smallSession 1).toSessionCtl,
      [newThread (smallSession 1).toSessionCtl smallThread]⟩ := rfl
  have hes : twoChains = [.hit 0 (.bp 0 (some smallRegs) (numberedEnv 5)),
      .hit 0 (.wp 0 (some smallRegs) (numberedEnv 6)), .hit 0 otherReuse] := rfl
  rw [hstart, hes]
  rw [Session.contextCalls_hit, contextKey_load, Session.contextCalls_hit, contextKey_ownAccess,
    ← watchedThread_eq, Session.contextCalls_hit, contextKey_otherReuse]
  have hfirst := congrArg Prod.snd (lookup_first hblank hnone
    (show numberedChain 0x400200 ≠ [] by decide))
  have hsecond := congrArg Prod.snd (lookup_second hsound hused hcontexts
    (show numberedChain 0x400204 ≠ [] by decide) (by decide))
  rw [Option.map_none, Option.map_some, Option.map_some, hfirst, hsecond, Session.contextCalls]
  rfl

theorem context_table_integrity_small :
    (smallSession 1).contextCalls 0 twoChains =
      [(numberedChain 0x400200, 1), (numberedChain 0x400204, 2)] ∧
    (smallSession 1).NoReset twoChains ∧
    ∀ p ∈ (smallSession 1).contextCalls 0 twoChains,
      ∀ q ∈ (smallSession 1).contextCalls 0 twoChains,
        (p.1 = q.1 → p.2 = q.2) ∧ (p.1 ≠ q.1 → p.2 ≠ 0 → q.2 ≠ 0 → p.2 ≠ q.2) := by
  have hes : (smallSession 1).NoReset twoChains := ⟨id, id, id, trivial⟩
  have h := context_table_integrity (smallSession 1) ⟨1, smallRun 1, rfl⟩ 0
    (newThread (smallSession 1).toSessionCtl smallThread) rfl
  exact ⟨contextCalls_twoChains, hes, (h.2.2.2.2 twoChains hes).2⟩

end RdSpeTool
