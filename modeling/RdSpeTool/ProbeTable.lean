import Mathlib.Algebra.BigOperators.Group.List.Basic
import Mathlib.Tactic

/-!
# First-fit tables

A table is a list of entries, some of them in use. `probe` walks over the whole table, returns the
first entry in use that the caller is looking for, and otherwise the first free place it passed.
A table that is only filled through `probe` keeps its used entries in a prefix, and its keys
distinct. The weight lemmas account for one rewritten entry in a sum over the table.
-/

namespace RdSpeTool.ProbeTable

variable {α κ : Type*}

section Weight

variable (g : α → α) {l : List α} {i : ℕ} {a : α}

theorem sum_map_modify (f : α → ℕ) (h : l[i]? = some a) :
    ((l.modify i g).map f).sum + f a = (l.map f).sum + f (g a) := by
  induction l generalizing i with
  | nil => simp at h
  | cons b l ih =>
      cases i with
      | zero =>
          have hb : b = a := by simpa using h
          subst b
          simp only [List.modify_zero_cons, List.map_cons, List.sum_cons]
          omega
      | succ i =>
          have hi := ih (i := i) (by simpa using h)
          simp only [List.modify_succ_cons, List.map_cons, List.sum_cons]
          omega

theorem countP_modify (p : α → Bool) (h : l[i]? = some a) :
    (l.modify i g).countP p + (if p a then 1 else 0) =
      l.countP p + (if p (g a) then 1 else 0) := by
  have hcount : ∀ xs : List α, xs.countP p = (xs.map (fun x => if p x then 1 else 0)).sum := by
    intro xs
    induction xs with
    | nil => rfl
    | cons x xs ih => rw [List.countP_cons, List.map_cons, List.sum_cons, ih, Nat.add_comm]
  rw [hcount, hcount]
  exact sum_map_modify g (fun x => if p x then 1 else 0) h

theorem sum_modify_succ {l : List ℕ} (h : i < l.length) : (l.modify i (· + 1)).sum = l.sum + 1 := by
  have hs := sum_map_modify (· + 1) id (List.getElem?_eq_getElem h)
  simp only [List.map_id, id_eq] at hs
  omega

theorem modify_congr {f : α → α} (h : l[i]? = some a) (hfg : f a = g a) :
    l.modify i f = l.modify i g := by
  apply List.ext_getElem?
  intro j
  rw [List.getElem?_modify, List.getElem?_modify]
  by_cases hij : i = j
  · subst j
    simp [h, hfg]
  · simp [hij]

theorem getElem?_modify_cases {f : α → α} {l : List α} {i j : ℕ} {b : α}
    (h : (l.modify i f)[j]? = some b) :
    ∃ a, l[j]? = some a ∧ (i = j ∧ b = f a ∨ i ≠ j ∧ b = a) := by
  rw [List.getElem?_modify] at h
  obtain ⟨a, ha, rfl⟩ := Option.map_eq_some_iff.mp h
  refine ⟨a, ha, ?_⟩
  by_cases hij : i = j
  · exact Or.inl ⟨hij, if_pos hij⟩
  · exact Or.inr ⟨hij, if_neg hij⟩

theorem map_modify_of_comm {β : Type*} {l : List α} {i : ℕ} {p : α → β} {f : α → α} {g : β → β}
    (h : ∀ a, p (f a) = g (p a)) : (l.modify i f).map p = (l.map p).modify i g := by
  apply List.ext_getElem?
  intro j
  rw [List.getElem?_map, List.getElem?_modify, List.getElem?_modify, List.getElem?_map]
  cases l[j]? with
  | none => rfl
  | some a =>
      by_cases hij : i = j
      · simp [hij, h]
      · simp [hij]

theorem map_modify_eq_map {β : Type*} {l : List α} {i : ℕ} {p : α → β} {f : α → α}
    (h : ∀ a, l[i]? = some a → p (f a) = p a) : (l.modify i f).map p = l.map p := by
  apply List.ext_getElem?
  intro j
  rw [List.getElem?_map, List.getElem?_map, List.getElem?_modify]
  by_cases hij : i = j
  · subst j
    cases hl : l[i]? with
    | none => rfl
    | some a => simp [h a hl]
  · simp [hij]

theorem forall₂_modify {β : Type*} {R : α → β → Prop} {l : List α} {l' : List β} {f : α → α}
    {g : β → β} (h : List.Forall₂ R l l') (i : ℕ) (hfg : ∀ a b, R a b → R (f a) (g b)) :
    List.Forall₂ R (l.modify i f) (l'.modify i g) := by
  induction h generalizing i with
  | nil => simp
  | cons hab hl ih =>
      cases i with
      | zero => exact .cons (hfg _ _ hab) hl
      | succ i => exact .cons hab (ih i)

theorem findIdx?_forall₂ {β : Type*} {R : α → β → Prop} {l : List α} {l' : List β} {p : α → Bool}
    {q : β → Bool} (h : List.Forall₂ R l l') (hpq : ∀ a b, R a b → p a = q b) :
    l.findIdx? p = l'.findIdx? q := by
  induction h with
  | nil => rfl
  | cons hab _ ih => rw [List.findIdx?_cons, List.findIdx?_cons, hpq _ _ hab, ih]

end Weight

inductive Probe
  | found (i : ℕ)
  | free (i : ℕ)
  | full
  deriving DecidableEq

/-- The walk from index `i` on, with the first free place seen so far. -/
def probe (used hit : α → Bool) : List α → ℕ → Option ℕ → Probe
  | [], _, none => .full
  | [], _, some f => .free f
  | e :: es, i, free =>
      if used e then
        if hit e then .found i else probe used hit es (i + 1) free
      else probe used hit es (i + 1) (free.or (some i))

section Walk

variable {used hit : α → Bool} {l : List α} {i j : ℕ}

theorem probe_found {free : Option ℕ} (h : probe used hit l i free = .found j) :
    ∃ k e, j = i + k ∧ l[k]? = some e ∧ used e = true ∧ hit e = true := by
  induction l generalizing i free with
  | nil => cases free <;> simp [probe] at h
  | cons e es ih =>
      have hnext : ∀ free', probe used hit es (i + 1) free' = .found j →
          ∃ k e', j = i + k ∧ (e :: es)[k]? = some e' ∧ used e' = true ∧ hit e' = true := by
        intro free' h'
        obtain ⟨k, e', hj, he, hu⟩ := ih h'
        exact ⟨k + 1, e', by omega, by simpa using he, hu⟩
      simp only [probe] at h
      split_ifs at h with hu hh
      · exact ⟨0, e, by simpa using (Probe.found.inj h).symm, by simp, hu, hh⟩
      · exact hnext _ h
      · exact hnext _ h

/-- A walk that does not find its entry has passed only entries that are free or different. -/
theorem probe_absent {free : Option ℕ} (h : ∀ j, probe used hit l i free ≠ .found j) (e : α)
    (he : e ∈ l) (hu : used e = true) : hit e = false := by
  induction l generalizing i free with
  | nil => simp at he
  | cons b es ih =>
      simp only [probe] at h
      rcases List.mem_cons.mp he with rfl | hmem
      · cases hh : hit e with
        | false => rfl
        | true => exact absurd (by simp [hu, hh]) (h i)
      · split_ifs at h with hb hh
        · exact absurd rfl (h i)
        · exact ih h hmem
        · exact ih h hmem

theorem probe_free_some {f : ℕ} (h : probe used hit l i (some f) = .free j) : j = f := by
  induction l generalizing i with
  | nil => simpa [probe] using h.symm
  | cons e es ih =>
      simp only [probe] at h
      split_ifs at h
      · exact ih h
      · exact ih h

/-- The free place a walk returns is the first entry not in use. -/
theorem probe_free (h : probe used hit l i none = .free j) :
    ∃ k e, j = i + k ∧ l[k]? = some e ∧ used e = false ∧
      ∀ m e', m < k → l[m]? = some e' → used e' = true := by
  induction l generalizing i with
  | nil => simp [probe] at h
  | cons e es ih =>
      simp only [probe] at h
      split_ifs at h with hu hh
      · obtain ⟨k, e', hj, he, hu', hbefore⟩ := ih h
        refine ⟨k + 1, e', by omega, by simpa using he, hu', ?_⟩
        intro m x hm hx
        cases m with
        | zero =>
            have hex : e = x := by simpa using hx
            exact hex ▸ hu
        | succ m => exact hbefore m x (by omega) (by simpa using hx)
      · refine ⟨0, e, probe_free_some h, by simp, by simpa using hu, ?_⟩
        intro m x hm
        omega

theorem probe_full (h : probe used hit l i none = .full) (e : α) (he : e ∈ l) :
    used e = true := by
  have hnot : ∀ (es : List α) (k f : ℕ), probe used hit es k (some f) ≠ .full := by
    intro es
    induction es with
    | nil => simp [probe]
    | cons b es ih =>
        intro k f hk
        simp only [probe] at hk
        split_ifs at hk
        · exact ih _ _ hk
        · exact ih _ _ hk
  induction l generalizing i with
  | nil => simp at he
  | cons b es ih =>
      simp only [probe] at h
      split_ifs at h with hb hh
      · rcases List.mem_cons.mp he with rfl | hmem
        · exact hb
        · exact ih h hmem
      · exact absurd h (hnot _ _ _)

end Walk

/-- Entries in use stay where they are and as they are. -/
def Extends (used : α → Bool) (l l' : List α) : Prop :=
  l'.length = l.length ∧ ∀ (i : ℕ) (e : α), l[i]? = some e → used e = true → l'[i]? = some e

namespace Extends

variable {used hit : α → Bool} {l l' l'' : List α} {j : ℕ}

theorem refl (used : α → Bool) (l : List α) : Extends used l l := ⟨rfl, fun _ _ he _ => he⟩

theorem trans (h : Extends used l l') (h' : Extends used l' l'') : Extends used l l'' :=
  ⟨h'.1.trans h.1, fun i e he hu => h'.2 i e (h.2 i e he hu) hu⟩

theorem of_probe (hp : probe used hit l 0 none = .free j) (g : α → α) :
    Extends used l (l.modify j g) := by
  obtain ⟨k, b, hj, hb, hub, -⟩ := probe_free hp
  refine ⟨by simp, ?_⟩
  intro i e he hu
  have hne : j ≠ i := by
    rintro rfl
    obtain rfl : j = k := by omega
    obtain rfl : b = e := Option.some.inj (hb.symm.trans he)
    rw [hub] at hu
    cases hu
  rw [List.getElem?_modify_ne _ _ hne, he]

/-- A full table has no other extension. -/
theorem eq_of_full (h : Extends used l l') (hall : ∀ e ∈ l, used e = true) : l' = l := by
  apply List.ext_getElem?
  intro i
  cases he : l[i]? with
  | none =>
      rw [List.getElem?_eq_none_iff] at he ⊢
      rw [h.1]
      exact he
  | some e => exact h.2 i e he (hall e (List.mem_of_getElem? he))

end Extends

/-- The entries in use are the first `n` of the table and have pairwise different keys. -/
structure Filled (used : α → Bool) (key : α → κ) (l : List α) (n : ℕ) : Prop where
  used_iff : ∀ (i : ℕ) (e : α), l[i]? = some e → (used e = true ↔ i < n)
  le_length : n ≤ l.length
  key_inj : ∀ (i j : ℕ) (a b : α), l[i]? = some a → l[j]? = some b → used a = true → used b = true →
    key a = key b → i = j

namespace Filled

variable {used hit : α → Bool} {key : α → κ} {l : List α} {n i j : ℕ}

theorem replicate (a : α) (m : ℕ) (h : used a = false) :
    Filled used key (List.replicate m a) 0 where
  used_iff i e he := by
    have hea : a = e := by
      rw [List.getElem?_replicate] at he
      split_ifs at he
      exact Option.some.inj he
    subst e
    simp [h]
  le_length := Nat.zero_le _
  key_inj i j a' b hi hj ha := by
    have hea : a = a' := by
      rw [List.getElem?_replicate] at hi
      split_ifs at hi
      exact Option.some.inj hi
    subst a'
    rw [h] at ha
    cases ha

/-- Rewriting an entry without touching its key or its mark. -/
theorem modify_same (h : Filled used key l n) (g : α → α) (hu : ∀ a, used (g a) = used a)
    (hk : ∀ a, key (g a) = key a) : Filled used key (l.modify i g) n where
  used_iff m e he := by
    rw [List.getElem?_modify] at he
    obtain ⟨b, hb, rfl⟩ := Option.map_eq_some_iff.mp he
    split_ifs
    · rw [hu]; exact h.used_iff m b hb
    · exact h.used_iff m b hb
  le_length := by simpa using h.le_length
  key_inj p q a b ha hb hua hub hab := by
    rw [List.getElem?_modify] at ha hb
    obtain ⟨a', ha', rfl⟩ := Option.map_eq_some_iff.mp ha
    obtain ⟨b', hb', rfl⟩ := Option.map_eq_some_iff.mp hb
    refine h.key_inj p q a' b' ha' hb' ?_ ?_ ?_
    · split_ifs at hua
      · rwa [hu] at hua
      · exact hua
    · split_ifs at hub
      · rwa [hu] at hub
      · exact hub
    · split_ifs at hab <;> simpa only [hk, id_eq] using hab

/-- On a filled table the free place is the one right after the entries in use. -/
theorem probe_free_eq (h : Filled used key l n) (hp : probe used hit l 0 none = .free j) :
    j = n ∧ n < l.length := by
  obtain ⟨k, e, hj, he, hu, hbefore⟩ := probe_free hp
  have hkj : k = j := by omega
  subst k
  have hlt : j < l.length := (List.getElem?_eq_some_iff.mp he).1
  have hnj : n ≤ j := by
    by_contra! hh
    have := (h.used_iff j e he).mpr hh
    rw [hu] at this
    cases this
  have hjn : j ≤ n := by
    by_contra! hh
    have hn : n < l.length := by omega
    have hun := hbefore n l[n] hh (List.getElem?_eq_getElem hn)
    have := (h.used_iff n l[n] (List.getElem?_eq_getElem hn)).mp hun
    omega
  exact ⟨Nat.le_antisymm hjn hnj, by omega⟩

theorem probe_eq_free (h : Filled used key l n) (hroom : n < l.length)
    (hnew : ∀ e ∈ l, used e = true → hit e = false) : probe used hit l 0 none = .free n := by
  cases hp : probe used hit l 0 none with
  | found j =>
      obtain ⟨k, e, -, he, hu, hhit⟩ := probe_found hp
      rw [hnew e (List.mem_of_getElem? he) hu] at hhit
      cases hhit
  | free j => rw [(h.probe_free_eq hp).1]
  | full =>
      have hu := probe_full hp l[n] (List.getElem_mem hroom)
      exact absurd ((h.used_iff n _ (List.getElem?_eq_getElem hroom)).mp hu) (lt_irrefl n)

/-- Storing a new key in the place that `probe` returned. -/
theorem insert (h : Filled used key l n) (hp : probe used hit l 0 none = .free j) (g : α → α)
    (hu : ∀ a, used (g a) = true)
    (hk : ∀ a b, used b = true → key (g a) = key b → hit b = true) :
    Filled used key (l.modify j g) (n + 1) := by
  obtain ⟨rfl, hlt⟩ := h.probe_free_eq hp
  have habs : ∀ b ∈ l, used b = true → hit b = false :=
    fun b hb => probe_absent (fun m hm => by rw [hp] at hm; cases hm) b hb
  have hnew : ∀ (a : α) (m : ℕ) (b : α), l[m]? = some b → used b = true → key (g a) ≠ key b := by
    intro a m b hb hub he
    have h1 := hk a b hub he
    rw [habs b (List.mem_of_getElem? hb) hub] at h1
    cases h1
  refine ⟨?_, by simpa using hlt, ?_⟩
  · intro m e he
    rw [List.getElem?_modify] at he
    obtain ⟨b, hb, rfl⟩ := Option.map_eq_some_iff.mp he
    split_ifs with hm
    · simp only [hu, true_iff]; omega
    · have hb' := h.used_iff m b hb
      rw [hb']
      omega
  · intro p q a b ha hb hua hub hab
    rw [List.getElem?_modify] at ha hb
    obtain ⟨a', ha', rfl⟩ := Option.map_eq_some_iff.mp ha
    obtain ⟨b', hb', rfl⟩ := Option.map_eq_some_iff.mp hb
    split_ifs at hua hub hab with hp hq
    · omega
    · exact absurd hab (hnew a' q b' hb' hub)
    · exact absurd hab.symm (hnew b' p a' ha' hua)
    · exact h.key_inj p q a' b' ha' hb' hua hub hab

/-- A walk finds the entry in use that it looks for. -/
theorem probe_eq_found (h : Filled used key l n) {e : α} (he : l[i]? = some e) (hu : used e = true)
    (hhit : hit e = true) (hkey : ∀ b, hit b = true → key b = key e) :
    probe used hit l 0 none = .found i := by
  cases hp : probe used hit l 0 none with
  | found j =>
      obtain ⟨k, b, hj, hb, hub, hhb⟩ := probe_found hp
      obtain rfl : j = k := by omega
      rw [h.key_inj j i b e hb he hub hu (hkey b hhb)]
  | free j =>
      have habs := probe_absent (fun m hm => by rw [hp] at hm; cases hm) e
        (List.mem_of_getElem? he) hu
      rw [habs] at hhit
      cases hhit
  | full =>
      have habs := probe_absent (fun m hm => by rw [hp] at hm; cases hm) e
        (List.mem_of_getElem? he) hu
      rw [habs] at hhit
      cases hhit

theorem eq_length_iff (h : Filled used key l n) : n = l.length ↔ ∀ e ∈ l, used e = true := by
  constructor
  · intro hn e he
    obtain ⟨i, hi⟩ := List.mem_iff_getElem?.mp he
    have hlt : i < l.length := (List.getElem?_eq_some_iff.mp hi).1
    exact (h.used_iff i e hi).mpr (hn ▸ hlt)
  · intro hall
    refine Nat.le_antisymm h.le_length ?_
    by_contra! hlt
    have hget := List.getElem?_eq_getElem hlt
    have := (h.used_iff n l[n] hget).mp (hall l[n] (List.getElem_mem hlt))
    omega

end Filled
end RdSpeTool.ProbeTable
