import Mathlib.Tactic

/-!
# Files opened with truncation

A directory as a list of named files. Writing to a name drops what stood there, so of several
writes to one name the last survives. The weight of a file is any count of its content.
-/

namespace RdSpeTool.KeyedFiles

variable {κ ν : Type*} [DecidableEq κ]

/-- Opens a file with truncation and writes its content. -/
def put (fs : List (κ × ν)) (f : κ × ν) : List (κ × ν) := f :: fs.filter fun g => g.1 ≠ f.1

def putAll (fs writes : List (κ × ν)) : List (κ × ν) := writes.foldl put fs

/-- The writes that no later write to their name replaces. -/
def surviving : List (κ × ν) → List (κ × ν)
  | [] => []
  | f :: rest => if f.1 ∈ rest.map Prod.fst then surviving rest else f :: surviving rest

section Weight

variable (w : ν → ℕ)

def weight (fs : List (κ × ν)) : ℕ := (fs.map fun f => w f.2).sum

omit [DecidableEq κ] in
theorem weight_cons (f : κ × ν) (fs : List (κ × ν)) :
    weight w (f :: fs) = w f.2 + weight w fs := by
  simp [weight]

/-- A directory holds the surviving writes, and the old files whose names were not written. -/
theorem weight_putAll (fs writes : List (κ × ν)) :
    weight w (putAll fs writes) =
      weight w (fs.filter fun g => g.1 ∉ writes.map Prod.fst) + weight w (surviving writes) := by
  induction writes generalizing fs with
  | nil => simp [putAll, surviving, weight]
  | cons f rest ih =>
      have hstep : putAll fs (f :: rest) = putAll (put fs f) rest := rfl
      have hold : (put fs f).filter (fun g => g.1 ∉ rest.map Prod.fst) =
          (if f.1 ∉ rest.map Prod.fst then [f] else []) ++
            fs.filter fun g => g.1 ∉ (f :: rest).map Prod.fst := by
        unfold put
        rw [List.filter_cons, List.filter_filter]
        have hpred : ∀ g : κ × ν, (decide (g.1 ∉ rest.map Prod.fst) && decide (g.1 ≠ f.1)) =
            decide (g.1 ∉ (f :: rest).map Prod.fst) := by
          intro g
          simp only [List.map_cons, List.mem_cons, not_or, Bool.decide_and, Bool.and_comm]
        simp only [hpred]
        split_ifs <;> simp_all
      rw [hstep, ih, hold]
      by_cases hf : f.1 ∈ rest.map Prod.fst
      · simp only [hf, not_true_eq_false, if_false, List.nil_append, surviving, if_true]
      · simp only [hf, not_false_eq_true, if_true, surviving, if_false, weight_cons,
          List.singleton_append]
        omega

theorem weight_surviving_le (writes : List (κ × ν)) :
    weight w (surviving writes) ≤ weight w writes := by
  induction writes with
  | nil => exact le_rfl
  | cons f rest ih =>
      rw [weight_cons, surviving]
      split_ifs
      · omega
      · rw [weight_cons]
        omega

/-- Nothing is lost exactly when every replaced file weighed nothing. -/
theorem weight_surviving_eq_iff (writes : List (κ × ν)) :
    weight w (surviving writes) = weight w writes ↔
      writes.Pairwise fun f g => f.1 = g.1 → w f.2 = 0 := by
  induction writes with
  | nil => simp [surviving]
  | cons f rest ih =>
      have hle := weight_surviving_le w rest
      have hhead : (∀ g ∈ rest, f.1 = g.1 → w f.2 = 0) ↔
          (f.1 ∈ rest.map Prod.fst → w f.2 = 0) := by
        constructor
        · intro h hmem
          obtain ⟨g, hg, he⟩ := List.mem_map.mp hmem
          exact h g hg he.symm
        · intro h g hg he
          exact h (List.mem_map.mpr ⟨g, hg, he.symm⟩)
      rw [List.pairwise_cons, ← ih, hhead, weight_cons, surviving]
      split_ifs with hmem
      · constructor
        · intro h
          exact ⟨fun _ => by omega, by omega⟩
        · rintro ⟨h0, h⟩
          have := h0 hmem
          omega
      · rw [weight_cons]
        constructor
        · intro h
          exact ⟨fun hm => absurd hm hmem, by omega⟩
        · rintro ⟨-, h⟩
          omega

end Weight

section Members

variable {α : Type*} {fs : List (κ × ν)} {f g : κ × ν}

theorem mem_put : g ∈ put fs f ↔ g = f ∨ g ∈ fs ∧ g.1 ≠ f.1 := by
  simp [put]

theorem putAll_concat (fs writes : List (κ × ν)) (f : κ × ν) :
    putAll fs (writes ++ [f]) = put (putAll fs writes) f := by
  simp [putAll]

/-- Names stay different. -/
theorem pairwise_putAll (h : fs.Pairwise fun f g => f.1 ≠ g.1) (writes : List (κ × ν)) :
    (putAll fs writes).Pairwise fun f g => f.1 ≠ g.1 := by
  induction writes generalizing fs with
  | nil => exact h
  | cons f rest ih =>
      refine ih (List.pairwise_cons.mpr ⟨?_, h.filter _⟩)
      intro g hg heq
      exact of_decide_eq_true (List.mem_filter.mp hg).2 heq.symm

/-- Files are replaced by their names only. -/
theorem map_putAll {ν' : Type*} (content : ν → ν') (writes fs : List (κ × ν)) :
    (putAll fs writes).map (fun f => (f.1, content f.2)) =
      putAll (fs.map fun f => (f.1, content f.2)) (writes.map fun f => (f.1, content f.2)) := by
  induction writes generalizing fs with
  | nil => rfl
  | cons f rest ih =>
      have hput : (put fs f).map (fun f => (f.1, content f.2)) =
          put (fs.map fun f => (f.1, content f.2)) (f.1, content f.2) := by
        unfold put
        rw [List.map_cons, List.filter_map]
        rfl
      rw [List.map_cons]
      change (putAll (put fs f) rest).map _ = putAll (put _ (f.1, content f.2)) _
      rw [ih, hput]

/-- The file of a name is the last that was written to it. -/
theorem mem_putAll_mapIdx {l : List α} {name : α → κ} {content : ℕ → α → ν} {k : κ} {v : ν} :
    (k, v) ∈ putAll [] (l.mapIdx fun i x => (name x, content i x)) ↔
      ∃ i x, l[i]? = some x ∧ name x = k ∧ content i x = v ∧
        ∀ j y, i < j → l[j]? = some y → name y ≠ k := by
  induction l using List.reverseRecOn with
  | nil => simp [putAll]
  | append_singleton l x ih =>
      rw [List.mapIdx_concat, putAll_concat, mem_put, ih, Prod.mk.injEq]
      constructor
      · rintro (⟨rfl, rfl⟩ | ⟨⟨i, y, hy, hk, hv, hlast⟩, hne⟩)
        · refine ⟨l.length, x, by simp, rfl, rfl, fun j y hj hy => ?_⟩
          rw [List.getElem?_eq_none (by simp; omega)] at hy
          cases hy
        · have hi : i < l.length := (List.getElem?_eq_some_iff.mp hy).1
          refine ⟨i, y, (List.getElem?_append_left hi).trans hy, hk, hv, fun j z hj hz => ?_⟩
          by_cases hlt : j < l.length
          · exact hlast j z hj ((List.getElem?_append_left hlt).symm.trans hz)
          · obtain ⟨hjlt, rfl⟩ := List.getElem?_eq_some_iff.mp hz
            obtain rfl : j = l.length := by
              simp only [List.length_append, List.length_singleton] at hjlt
              omega
            simpa [eq_comm] using hne
      · rintro ⟨i, y, hy, hk, hv, hlast⟩
        by_cases hi : i < l.length
        · rw [List.getElem?_append_left hi] at hy
          refine .inr ⟨⟨i, y, hy, hk, hv, fun j z hj hz => ?_⟩, ?_⟩
          · have hjlt := (List.getElem?_eq_some_iff.mp hz).1
            exact hlast j z hj ((List.getElem?_append_left hjlt).trans hz)
          · exact (hlast l.length x hi (by simp)).symm
        · obtain ⟨hilt, rfl⟩ := List.getElem?_eq_some_iff.mp hy
          obtain rfl : i = l.length := by
            simp only [List.length_append, List.length_singleton] at hilt
            omega
          simp only [List.getElem_concat_length] at hk hv
          exact .inl ⟨hk.symm, hv.symm⟩

theorem mem_putAll_map {l : List α} {name : α → κ} {content : α → ν} {k : κ} {v : ν} :
    (k, v) ∈ putAll [] (l.map fun x => (name x, content x)) ↔
      ∃ (i : ℕ) (x : α), l[i]? = some x ∧ name x = k ∧ content x = v ∧
        ∀ (j : ℕ) (y : α), i < j → l[j]? = some y → name y ≠ k := by
  have hmap : (l.map fun x => (name x, content x)) =
      l.mapIdx fun _ x => (name x, content x) :=
    List.ext_getElem (by simp) (by simp)
  rw [hmap]
  exact mem_putAll_mapIdx

/-- Two files of one name, each the last that was written to it, come from the same source. -/
theorem eq_content_of_mem {ν' : Type*} {l : List α} {name : α → κ} {content : α → ν}
    (content' : α → ν') {k : κ} {v : ν}
    (h : (k, v) ∈ putAll [] (l.map fun x => (name x, content x))) :
    ∃ x ∈ l, name x = k ∧ v = content x ∧
      ∀ v', (k, v') ∈ putAll [] (l.map fun x => (name x, content' x)) ↔ v' = content' x := by
  obtain ⟨i, x, hx, hk, rfl, hlast⟩ := mem_putAll_map.mp h
  refine ⟨x, List.mem_of_getElem? hx, hk, rfl, fun v' => ?_⟩
  rw [mem_putAll_map]
  constructor
  · rintro ⟨i', x', hx', hk', rfl, hlast'⟩
    obtain hlt | rfl | hlt := lt_trichotomy i i'
    · exact absurd hk' (hlast i' x' hlt hx')
    · rw [Option.some.inj (hx'.symm.trans hx)]
    · exact absurd hk (hlast' i x hlt hx)
  · rintro rfl
    exact ⟨i, x, hx, hk, rfl, hlast⟩

end Members

end RdSpeTool.KeyedFiles
