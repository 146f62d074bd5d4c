import Mathlib.Data.List.Sort
import Mathlib.Tactic

/-!
# Sorting by a strict comparator

A comparator that orders values by a key. On values with different keys the sorted list is the only
one with strictly increasing keys, so it depends neither on the order of the input nor on the
algorithm.
-/

namespace StrictSort

variable {α κ : Type*} [LinearOrder κ] {before : α → α → Bool} {key : α → κ} {l l' : List α}

def sort (before : α → α → Bool) (l : List α) : List α :=
  l.insertionSort fun a b => before b a = false

def ByKey (before : α → α → Bool) (key : α → κ) : Prop :=
  ∀ a b, before a b = true ↔ key a < key b

theorem sort_perm (before : α → α → Bool) (l : List α) : (sort before l).Perm l :=
  List.perm_insertionSort _ l

theorem mem_sort {a : α} : a ∈ sort before l ↔ a ∈ l := (sort_perm before l).mem_iff

theorem sort_pairwise_le (h : ByKey before key) (l : List α) :
    (sort before l).Pairwise fun a b => key a ≤ key b := by
  have hle : ∀ a b, before b a = false ↔ key a ≤ key b := by
    intro a b
    rw [← Bool.not_eq_true, h, not_lt]
  have htotal : Std.Total fun a b : α => before b a = false :=
    ⟨fun a b => by
      rw [hle, hle]
      exact le_total _ _⟩
  have htrans : IsTrans α fun a b : α => before b a = false :=
    ⟨fun a b c hab hbc => by
      rw [hle] at hab hbc ⊢
      exact hab.trans hbc⟩
  have hsorted : (sort before l).Pairwise fun a b => before b a = false :=
    List.pairwise_insertionSort _ l
  exact hsorted.imp fun {a b} hab => (hle a b).mp hab

/-- Different keys make the order strict. -/
theorem sort_pairwise (h : ByKey before key) (hnd : (l.map key).Nodup) :
    (sort before l).Pairwise fun a b => before a b = true := by
  have hne : (sort before l).Pairwise fun a b => key a ≠ key b := by
    rw [← List.pairwise_map]
    exact ((sort_perm before l).map key).nodup_iff.mpr hnd
  apply (hne.and (sort_pairwise_le h l)).imp
  intro a b hab
  exact (h a b).mpr (lt_of_le_of_ne hab.2 hab.1)

/-- Any arrangement of the input gives the same result. -/
theorem sort_eq_of_perm (h : ByKey before key) (hnd : (l.map key).Nodup) (hp : l.Perm l') :
    sort before l = sort before l' := by
  have hperm : (sort before l).Perm (sort before l') :=
    (sort_perm before l).trans (hp.trans (sort_perm before l').symm)
  have hnd' : (l'.map key).Nodup := (hp.map key).nodup_iff.mp hnd
  refine hperm.eq_of_pairwise ?_ (sort_pairwise h hnd) (sort_pairwise h hnd')
  intro a b _ _ hab hba
  exact absurd ((h a b).mp hab) ((h b a).mp hba).asymm

end StrictSort
