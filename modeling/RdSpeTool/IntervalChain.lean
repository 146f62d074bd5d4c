import Mathlib.Data.List.Sort
import Mathlib.Tactic

/-!
# Chains of intervals

Closed intervals of naturals, each starting right after the one before it ends. A chain is sorted,
its members are disjoint, and it covers everything from its start to its last bound.
-/

namespace RdSpeTool.IntervalChain

/-- The intervals follow each other without a gap, the first from `start`. -/
def Chained : ℕ → List (ℕ × ℕ) → Prop
  | _, [] => True
  | start, (lo, hi) :: rest => lo = start ∧ lo ≤ hi ∧ Chained (hi + 1) rest

def Overlap (a b : ℕ × ℕ) (x : ℕ) : Prop := (a.1 ≤ x ∧ x ≤ a.2) ∧ b.1 ≤ x ∧ x ≤ b.2

def Apart (a b : ℕ × ℕ) : Prop := ∀ x, ¬ Overlap a b x

def PairLe (a b : ℕ × ℕ) : Prop := a.1 < b.1 ∨ a.1 = b.1 ∧ a.2 ≤ b.2

instance : Std.Symm Apart where
  symm _ _ h x hx := h x ⟨hx.2, hx.1⟩

instance : DecidableRel PairLe := fun a b =>
  inferInstanceAs (Decidable (a.1 < b.1 ∨ a.1 = b.1 ∧ a.2 ≤ b.2))

variable {start : ℕ} {l : List (ℕ × ℕ)}

theorem Chained.start_le (h : Chained start l) {i : ℕ × ℕ} (hi : i ∈ l) : start ≤ i.1 := by
  induction l generalizing start with
  | nil => cases hi
  | cons j rest ih =>
      obtain ⟨hlo, hle, hrest⟩ := h
      rcases List.mem_cons.mp hi with rfl | hmem
      · exact hlo.ge
      · have := ih hrest hmem
        omega

theorem Chained.pairwise (h : Chained start l) : l.Pairwise fun a b => a.2 < b.1 := by
  induction l generalizing start with
  | nil => exact .nil
  | cons j rest ih =>
      obtain ⟨-, -, hrest⟩ := h
      refine .cons ?_ (ih hrest)
      intro b hb
      have := hrest.start_le hb
      omega

/-- Two members are the same or apart. -/
theorem Chained.apart (h : Chained start l) {a b : ℕ × ℕ} (ha : a ∈ l) (hb : b ∈ l)
    (hne : a ≠ b) : Apart a b := by
  have hpair : l.Pairwise Apart := by
    apply h.pairwise.imp
    intro a b hlt x hx
    have h1 := hx.1.2
    have h2 := hx.2.1
    omega
  exact hpair.forall ha hb hne

/-- A point between the start and the bound of a member lies in a member. -/
theorem Chained.covers (h : Chained start l) {i : ℕ × ℕ} (hi : i ∈ l) {x : ℕ} (hlo : start ≤ x)
    (hhi : x ≤ i.2) : ∃ j ∈ l, j.1 ≤ x ∧ x ≤ j.2 := by
  induction l generalizing start with
  | nil => cases hi
  | cons j rest ih =>
      obtain ⟨hstart, hle, hrest⟩ := h
      by_cases hx : x ≤ j.2
      · exact ⟨j, List.mem_cons_self, by omega, hx⟩
      · rcases List.mem_cons.mp hi with rfl | hmem
        · exact absurd hhi hx
        · obtain ⟨k, hk, hin⟩ := ih hrest hmem (by omega)
          exact ⟨k, List.mem_cons_of_mem _ hk, hin⟩

/-! ## Sorting intervals of a chain -/

def sortedSet (l : List (ℕ × ℕ)) : List (ℕ × ℕ) := l.dedup.mergeSort (PairLe · ·)

theorem mem_sortedSet {i : ℕ × ℕ} : i ∈ sortedSet l ↔ i ∈ l := by
  rw [sortedSet, List.mem_mergeSort, List.mem_dedup]

theorem sortedSet_sorted (l : List (ℕ × ℕ)) : (sortedSet l).Pairwise PairLe := by
  have htrans : ∀ a b c : ℕ × ℕ, decide (PairLe a b) = true → decide (PairLe b c) = true →
      decide (PairLe a c) = true := by
    intro a b c hab hbc
    rw [decide_eq_true_eq] at *
    unfold PairLe at *
    omega
  have htotal : ∀ a b : ℕ × ℕ, (decide (PairLe a b) || decide (PairLe b a)) = true := by
    intro a b
    rw [Bool.or_eq_true, decide_eq_true_eq, decide_eq_true_eq]
    unfold PairLe
    omega
  apply (List.pairwise_mergeSort htrans htotal l.dedup).imp
  intro a b hab
  exact of_decide_eq_true hab

theorem sortedSet_nodup (l : List (ℕ × ℕ)) : (sortedSet l).Nodup :=
  (List.mergeSort_perm _ _).nodup_iff.mpr (List.nodup_dedup l)

/-- Intervals that all belong to one chain stay apart when they are sorted. -/
theorem Chained.sortedSet_apart (h : Chained start l) {m : List (ℕ × ℕ)} (hm : ∀ i ∈ m, i ∈ l) :
    (sortedSet m).Pairwise Apart := by
  apply (sortedSet_nodup m).imp_of_mem
  intro a b ha hb hne
  exact h.apart (hm a (mem_sortedSet.mp ha)) (hm b (mem_sortedSet.mp hb)) hne

end RdSpeTool.IntervalChain
