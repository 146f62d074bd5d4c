import Mathlib.Tactic

/-!
# Groups in order of first appearance

A table that keeps its keys in the order in which they were first used. Filling it from a list gives
one entry for each key of the list, in that order, and the entry of a key sees exactly the members
with this key, in the order of the list.
-/

namespace RdSpeTool.OrderedGroups

variable {κ ν α : Type*} [DecidableEq κ]

/-- Updates the value of a key; a new key goes to the end and starts from `d`. -/
def upsert (d : ν) (f : ν → ν) (k : κ) : List (κ × ν) → List (κ × ν)
  | [] => [(k, f d)]
  | e :: m => if e.1 = k then (k, f e.2) :: m else e :: upsert d f k m

def tabulate (d : ν) (f : α → ν → ν) (key : α → κ) (l : List α) : List (κ × ν) :=
  l.foldl (fun m a => upsert d (f a) (key a) m) []

/-- The keys without repetitions, in the order of their first use. -/
def firsts (ks : List κ) : List κ := ks.eraseDups

def groupOf (key : α → κ) (l : List α) (k : κ) : List α := l.filter fun a => key a = k

/-! ## What the table holds -/

theorem upsert_map_of_mem (d : ν) (f : ν → ν) (val : κ → ν) {k : κ} {ks : List κ} (hk : k ∈ ks)
    (hnd : ks.Nodup) :
    upsert d f k (ks.map fun x => (x, val x)) =
      ks.map fun x => (x, if x = k then f (val x) else val x) := by
  induction ks with
  | nil => cases hk
  | cons x ks ih =>
      rw [List.nodup_cons] at hnd
      rw [List.map_cons, List.map_cons, upsert]
      by_cases hx : x = k
      · subst hx
        rw [if_pos rfl, if_pos rfl]
        congr 1
        apply List.map_congr_left
        intro y hy
        have hne : y ≠ x := fun h => hnd.1 (h ▸ hy)
        rw [if_neg hne]
      · have htail : k ∈ ks := (List.mem_cons.mp hk).resolve_left (Ne.symm hx)
        rw [if_neg hx, if_neg hx, ih htail hnd.2]

theorem upsert_map_of_notMem (d : ν) (f : ν → ν) (val : κ → ν) {k : κ} {ks : List κ}
    (hk : k ∉ ks) :
    upsert d f k (ks.map fun x => (x, val x)) = ks.map (fun x => (x, val x)) ++ [(k, f d)] := by
  induction ks with
  | nil => rfl
  | cons x ks ih =>
      rw [List.mem_cons, not_or] at hk
      rw [List.map_cons, upsert, if_neg (Ne.symm hk.1), ih hk.2, List.cons_append]

theorem mem_firsts {k : κ} {ks : List κ} : k ∈ firsts ks ↔ k ∈ ks := List.mem_eraseDups

theorem firsts_concat (ks : List κ) (k : κ) :
    firsts (ks ++ [k]) = if k ∈ ks then firsts ks else firsts ks ++ [k] := by
  unfold firsts
  rw [List.eraseDups_append]
  split_ifs with hk
  · simp [List.removeAll, hk]
  · simp [List.removeAll, hk, List.eraseDups_cons]

theorem nodup_firsts (ks : List κ) : (firsts ks).Nodup := by
  induction ks using List.reverseRecOn with
  | nil => exact List.nodup_nil
  | append_singleton ks k ih =>
      rw [firsts_concat]
      split_ifs with hk
      · exact ih
      · rw [← List.concat_eq_append]
        exact ih.concat fun h => hk (mem_firsts.mp h)

theorem groupOf_concat (key : α → κ) (l : List α) (a : α) (k : κ) :
    groupOf key (l ++ [a]) k = if k = key a then groupOf key l k ++ [a] else groupOf key l k := by
  unfold groupOf
  rw [List.filter_append]
  split_ifs with hk
  · simp [hk]
  · simp [Ne.symm hk]

theorem groupOf_eq_nil {key : α → κ} {l : List α} {k : κ} (h : k ∉ l.map key) :
    groupOf key l k = [] := by
  rw [groupOf, List.filter_eq_nil_iff]
  intro a ha hk
  exact h (List.mem_map.mpr ⟨a, ha, of_decide_eq_true hk⟩)

/-- The filled table: each key of the list once, with its members folded into the default. -/
theorem tabulate_eq (d : ν) (f : α → ν → ν) (key : α → κ) (l : List α) :
    tabulate d f key l = (firsts (l.map key)).map fun k =>
      (k, (groupOf key l k).foldl (fun v a => f a v) d) := by
  induction l using List.reverseRecOn with
  | nil => rfl
  | append_singleton l a ih =>
      have hstep : tabulate d f key (l ++ [a]) = upsert d (f a) (key a) (tabulate d f key l) := by
        simp [tabulate]
      rw [hstep, ih, List.map_append, List.map_singleton, firsts_concat]
      by_cases hk : key a ∈ l.map key
      · rw [if_pos hk, upsert_map_of_mem d (f a) _ (mem_firsts.mpr hk) (nodup_firsts _)]
        apply List.map_congr_left
        intro k _
        rw [groupOf_concat]
        split_ifs with h
        · rw [List.foldl_append]
          rfl
        · rfl
      · rw [if_neg hk, upsert_map_of_notMem d (f a) _ (fun h => hk (mem_firsts.mp h)),
          List.map_append, List.map_singleton, groupOf_concat, if_pos rfl, groupOf_eq_nil hk]
        congr 1
        apply List.map_congr_left
        intro k hmem
        have hne : k ≠ key a := fun h => hk (h ▸ mem_firsts.mp hmem)
        rw [groupOf_concat, if_neg hne]

/-- A table of counts. -/
theorem tabulate_count (key : α → κ) (l : List α) :
    tabulate 0 (fun _ n => n + 1) key l =
      (firsts (l.map key)).map fun k => (k, (groupOf key l k).length) := by
  have hcount : ∀ l : List α, l.foldl (fun n _ => n + 1) 0 = l.length := by
    intro l
    induction l using List.reverseRecOn with
    | nil => rfl
    | append_singleton l a ih => simp [ih]
  rw [tabulate_eq]
  simp only [hcount]

/-- A table of lists. -/
theorem tabulate_append (key : α → κ) (l : List α) :
    tabulate [] (fun a g => g ++ [a]) key l =
      (firsts (l.map key)).map fun k => (k, groupOf key l k) := by
  have happend : ∀ l : List α, l.foldl (fun g a => g ++ [a]) [] = l := by
    intro l
    induction l using List.reverseRecOn with
    | nil => rfl
    | append_singleton l a ih => simp [ih]
  rw [tabulate_eq]
  simp only [happend]

/-- The groups of some keys hold the members with these keys. -/
theorem flatMap_groupOf_perm (key : α → κ) (l : List α) {ks : List κ} (h : ks.Nodup) :
    (ks.flatMap (groupOf key l)).Perm (l.filter fun a => key a ∈ ks) := by
  induction ks with
  | nil => simp
  | cons k ks ih =>
      rw [List.nodup_cons] at h
      have hsplit := List.filter_append_perm (fun a => decide (key a = k))
        (l.filter fun a => key a ∈ k :: ks)
      have hfirst : (l.filter fun a => key a ∈ k :: ks).filter (fun a => decide (key a = k)) =
          groupOf key l k := by
        rw [List.filter_filter, groupOf]
        apply List.filter_congr
        intro a _
        by_cases hk : key a = k <;> simp [hk]
      have hrest : (l.filter fun a => key a ∈ k :: ks).filter (fun a => !decide (key a = k)) =
          l.filter fun a => key a ∈ ks := by
        rw [List.filter_filter]
        apply List.filter_congr
        intro a _
        by_cases hk : key a = k
        · simp [hk, h.1]
        · simp [hk]
      rw [hfirst, hrest] at hsplit
      rw [List.flatMap_cons]
      exact ((ih h.2).append_left _).trans hsplit

theorem flatMap_firsts_perm (key : α → κ) (l : List α) :
    ((firsts (l.map key)).flatMap (groupOf key l)).Perm l := by
  have h := flatMap_groupOf_perm key l (nodup_firsts (l.map key))
  rwa [List.filter_eq_self.mpr fun a ha =>
    decide_eq_true (mem_firsts.mpr (List.mem_map_of_mem ha))] at h

/-! ## Sums over the groups -/

/-- Summing over the groups of a list is summing over the list. -/
theorem sum_groupOf {M : Type*} [AddCommMonoid M] (w : α → M) (key : α → κ) (l : List α) :
    ((firsts (l.map key)).map fun k => ((groupOf key l k).map w).sum).sum = (l.map w).sum := by
  have hind : ∀ ks : List κ, ks.Nodup → (∀ a ∈ l, key a ∈ ks) →
      (ks.map fun k => ((groupOf key l k).map w).sum).sum = (l.map w).sum := by
    intro ks hnd hall
    induction l with
    | nil => simp [groupOf]
    | cons a l ih =>
        have hmem := hall a List.mem_cons_self
        have hrest := ih fun b hb => hall b (List.mem_cons_of_mem a hb)
        have hgroup : ∀ k, ((groupOf key (a :: l) k).map w).sum =
            (if k = key a then w a else 0) + ((groupOf key l k).map w).sum := by
          intro k
          unfold groupOf
          rw [List.filter_cons]
          by_cases hk : key a = k
          · simp [hk]
          · simp [hk, Ne.symm hk]
        simp only [hgroup]
        rw [List.sum_map_add, hrest, List.map_cons, List.sum_cons, ← List.sum_toFinset _ hnd,
          Finset.sum_ite_eq' ks.toFinset, if_pos (List.mem_toFinset.mpr hmem)]
  exact hind _ (nodup_firsts _) fun a ha =>
    mem_firsts.mpr (List.mem_map_of_mem ha)

theorem sum_indicator (p : α → Prop) [DecidablePred p] (l : List α) :
    (l.map fun a => if p a then 1 else 0).sum = l.countP fun a => p a := by
  induction l with
  | nil => rfl
  | cons a l ih =>
      rw [List.map_cons, List.sum_cons, ih, List.countP_cons, Nat.add_comm]
      simp only [decide_eq_true_eq]

/-- Counting in the groups whose key has a property of their members. -/
theorem countP_groupOf {key : α → κ} {p : α → Prop} {q : κ → Prop} [DecidablePred p]
    [DecidablePred q] {l : List α} (h : ∀ a ∈ l, p a ↔ q (key a)) :
    ((firsts (l.map key)).map fun k => if q k then (groupOf key l k).length else 0).sum =
      l.countP fun a => p a := by
  rw [← sum_indicator, ← sum_groupOf _ key l]
  congr 1
  apply List.map_congr_left
  intro k _
  have hgroup : ∀ a ∈ groupOf key l k, (p a ↔ q k) := by
    intro a ha
    obtain ⟨hmem, hk⟩ := List.mem_filter.mp ha
    rw [← of_decide_eq_true hk]
    exact h a hmem
  rw [sum_indicator]
  split_ifs with hq
  · exact (List.countP_eq_length.mpr fun a ha => decide_eq_true ((hgroup a ha).mpr hq)).symm
  · exact (List.countP_eq_zero.mpr fun a ha hp => hq ((hgroup a ha).mp (of_decide_eq_true hp))).symm

theorem length_groupOf (key : α → κ) (l : List α) :
    ((firsts (l.map key)).map fun k => (groupOf key l k).length).sum = l.length := by
  have h := sum_groupOf (fun _ => 1) key l
  simpa using h

end RdSpeTool.OrderedGroups
