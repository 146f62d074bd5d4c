import Mathlib.Tactic

/-!
# Overlap of finite distributions

What two weightings of a finite set share, and its relation to the sum of their differences. For
distributions the two determine each other, so the overlap measures how far they agree.
-/

namespace RdSpeTool.Overlap

variable {ι K : Type*} [Field K] [LinearOrder K] [IsStrictOrderedRing K]

def overlap (s : Finset ι) (p q : ι → K) : K := ∑ i ∈ s, min (p i) (q i)

def distance (s : Finset ι) (p q : ι → K) : K := ∑ i ∈ s, |p i - q i|

variable {s t : Finset ι} {p q : ι → K}

omit [IsStrictOrderedRing K] in
theorem overlap_comm : overlap s p q = overlap s q p :=
  Finset.sum_congr rfl fun i _ => min_comm (p i) (q i)

theorem two_mul_min (a b : K) : 2 * min a b = a + b - |a - b| := by
  have hsum := min_add_max a b
  have hdiff := max_sub_min_eq_abs' a b
  linarith

/-- Twice the overlap and the differences make up both weightings. -/
theorem two_mul_overlap : 2 * overlap s p q = ∑ i ∈ s, p i + ∑ i ∈ s, q i - distance s p q := by
  unfold overlap distance
  rw [Finset.mul_sum, ← Finset.sum_add_distrib, ← Finset.sum_sub_distrib]
  exact Finset.sum_congr rfl fun i _ => two_mul_min (p i) (q i)

theorem one_sub_half_distance (hp : ∑ i ∈ s, p i = 1) (hq : ∑ i ∈ s, q i = 1) :
    1 - distance s p q / 2 = overlap s p q := by
  have htwo := two_mul_overlap (s := s) (p := p) (q := q)
  rw [hp, hq] at htwo
  linarith

theorem overlap_nonneg (hp : ∀ i ∈ s, 0 ≤ p i) (hq : ∀ i ∈ s, 0 ≤ q i) : 0 ≤ overlap s p q :=
  Finset.sum_nonneg fun i hi => le_min (hp i hi) (hq i hi)

theorem overlap_le : overlap s p q ≤ ∑ i ∈ s, p i :=
  Finset.sum_le_sum fun i _ => min_le_left (p i) (q i)

/-- Distributions overlap wholly exactly when they are equal. -/
theorem overlap_eq_one_iff (hp : ∑ i ∈ s, p i = 1) (hq : ∑ i ∈ s, q i = 1) :
    overlap s p q = 1 ↔ ∀ i ∈ s, p i = q i := by
  have hleft : overlap s p q = 1 ↔ ∀ i ∈ s, min (p i) (q i) = p i := by
    rw [← hp]
    exact Finset.sum_eq_sum_iff_of_le fun i _ => min_le_left (p i) (q i)
  have hright : overlap s p q = 1 ↔ ∀ i ∈ s, min (p i) (q i) = q i := by
    rw [← hq]
    exact Finset.sum_eq_sum_iff_of_le fun i _ => min_le_right (p i) (q i)
  constructor
  · intro h i hi
    rw [← hleft.mp h i hi]
    exact hright.mp h i hi
  · intro h
    rw [hleft]
    intro i hi
    rw [← h i hi]
    exact min_self (p i)

/-- Weightings do not overlap exactly when one of them vanishes everywhere. -/
theorem overlap_eq_zero_iff (hp : ∀ i ∈ s, 0 ≤ p i) (hq : ∀ i ∈ s, 0 ≤ q i) :
    overlap s p q = 0 ↔ ∀ i ∈ s, p i = 0 ∨ q i = 0 := by
  unfold overlap
  rw [Finset.sum_eq_zero_iff_of_nonneg fun i hi => le_min (hp i hi) (hq i hi)]
  refine forall₂_congr fun i hi => ?_
  constructor
  · intro hmin
    rcases min_choice (p i) (q i) with h | h
    · exact .inl (h.symm.trans hmin)
    · exact .inr (h.symm.trans hmin)
  · rintro (h | h)
    · rw [h]
      exact min_eq_left (hq i hi)
    · rw [h]
      exact min_eq_right (hp i hi)

omit [IsStrictOrderedRing K] in
/-- Places where both vanish do not count. -/
theorem overlap_subset (hst : s ⊆ t) (hp : ∀ i ∈ t, i ∉ s → p i = 0)
    (hq : ∀ i ∈ t, i ∉ s → q i = 0) : overlap s p q = overlap t p q := by
  refine Finset.sum_subset hst fun i hi hnot => ?_
  rw [hp i hi hnot, hq i hi hnot]
  exact min_self 0

end RdSpeTool.Overlap
