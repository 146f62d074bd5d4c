import Mathlib.Data.List.Sort
import Mathlib.Tactic

/-!
# Ranked lists

A list sorted by a descending key with a stable sort, as reports rank their entries, and the first
entries of it that are shown. Entries of one key stay in the order they had, so a list whose entries
were in a strict order before has only one ranking.
-/

namespace RdSpeTool.Ranking

variable {α κ : Type*} [LinearOrder κ]

def ranked (key : α → κ) (l : List α) : List α := l.insertionSort fun a b => key b ≤ key a

/-- A slice up to an index; a negative index counts from the end. -/
def sliceTo (l : List α) (n : ℤ) : List α :=
  if 0 ≤ n then l.take n.toNat else l.take (l.length + n).toNat

theorem ranked_perm (key : α → κ) (l : List α) : (ranked key l).Perm l :=
  List.perm_insertionSort _ l

theorem mem_ranked {key : α → κ} {l : List α} {a : α} : a ∈ ranked key l ↔ a ∈ l :=
  (ranked_perm key l).mem_iff

section Order

variable (key : α → κ) (r : α → α → Prop)

def Before (a b : α) : Prop := key b < key a ∨ key a = key b ∧ r a b

theorem orderedInsert_pairwise {a : α} {l : List α} (hl : l.Pairwise (Before key r))
    (ha : ∀ b ∈ l, r a b) :
    (l.orderedInsert (fun a b => key b ≤ key a) a).Pairwise (Before key r) := by
  induction l with
  | nil => simp
  | cons b l ih =>
      rw [List.pairwise_cons] at hl
      rw [List.orderedInsert_cons]
      split_ifs with hle
      · rw [List.pairwise_cons]
        refine ⟨?_, List.pairwise_cons.mpr hl⟩
        intro c hc
        have hkey : key c ≤ key a := by
          rcases List.mem_cons.mp hc with rfl | hc
          · exact hle
          · rcases hl.1 c hc with hlt | ⟨heq, -⟩
            · exact hlt.le.trans hle
            · exact heq ▸ hle
        rcases hkey.lt_or_eq with hlt | heq
        · exact .inl hlt
        · exact .inr ⟨heq.symm, ha c hc⟩
      · rw [List.pairwise_cons]
        refine ⟨?_, ih hl.2 fun c hc => ha c (List.mem_cons_of_mem b hc)⟩
        intro c hc
        rw [List.mem_orderedInsert] at hc
        rcases hc with rfl | hc
        · exact .inl (not_le.mp hle)
        · exact hl.1 c hc

/-- Ranking keeps the order of entries with one key. -/
theorem ranked_pairwise {l : List α} (hl : l.Pairwise r) :
    (ranked key l).Pairwise (Before key r) := by
  induction l with
  | nil => exact List.Pairwise.nil
  | cons a l ih =>
      rw [List.pairwise_cons] at hl
      rw [ranked, List.insertionSort_cons]
      exact orderedInsert_pairwise key r (ih hl.2) fun b hb => hl.1 b (mem_ranked.mp hb)

end Order

/-- What a slice shows comes first in the list. -/
theorem sliceTo_prefix (l : List α) (n : ℤ) : sliceTo l n <+: l := by
  unfold sliceTo
  split_ifs
  · exact List.take_prefix _ l
  · exact List.take_prefix _ l

theorem sliceTo_eq_self {l : List α} {n : ℤ} (h : l.length ≤ n) : sliceTo l n = l := by
  unfold sliceTo
  rw [if_pos (by omega), List.take_of_length_le (by omega)]

end RdSpeTool.Ranking
