import Mathlib.Algebra.BigOperators.Group.Finset.Basic
import Mathlib.Algebra.Order.BigOperators.Group.Finset

/-!
# Counting agents by their control state

A family of agents, each in a control state, and a weight on control states. `Total w pc n` says
that finitely many agents carry weight and that the weights add up to `n`. The family itself may be
infinite. A move of one agent changes the total by the difference of two weights.
-/

namespace Census

open Finset

variable {ι P : Type*} {w : P → ℕ} {pc : ι → P} {n : ℕ}

def Total (w : P → ℕ) (pc : ι → P) (n : ℕ) : Prop :=
  ∃ F : Finset ι, (∀ i ∉ F, w (pc i) = 0) ∧ ∑ i ∈ F, w (pc i) = n

namespace Total

theorem of_zero (h : ∀ i, w (pc i) = 0) : Total w pc 0 := ⟨∅, fun i _ => h i, rfl⟩

theorem weight_le (h : Total w pc n) (i : ι) : w (pc i) ≤ n := by
  obtain ⟨F, hout, rfl⟩ := h
  by_cases hi : i ∈ F
  · exact single_le_sum (f := fun j => w (pc j)) (fun _ _ => Nat.zero_le _) hi
  · rw [hout i hi]
    exact Nat.zero_le _

theorem eq_zero (h : Total w pc 0) (i : ι) : w (pc i) = 0 := Nat.le_zero.mp (h.weight_le i)

variable [DecidableEq ι]

/-- The carriers may be enlarged by any agent. -/
theorem exists_mem (h : Total w pc n) (i : ι) :
    ∃ F : Finset ι, i ∈ F ∧ (∀ j ∉ F, w (pc j) = 0) ∧ ∑ j ∈ F, w (pc j) = n := by
  obtain ⟨F, hout, hsum⟩ := h
  refine ⟨insert i F, mem_insert_self i F, fun j hj => ?_, ?_⟩
  · exact hout j fun hmem => hj (mem_insert_of_mem hmem)
  · rw [← hsum]
    refine (sum_subset (subset_insert i F) ?_).symm
    intro j _ hj
    exact hout j hj

/-- One agent moves to `p`. -/
theorem update (h : Total w pc n) (i : ι) {p : P} {n' : ℕ} (hn : n' + w (pc i) = n + w p) :
    Total w (Function.update pc i p) n' := by
  obtain ⟨F, hi, hout, hsum⟩ := h.exists_mem i
  refine ⟨F, fun j hj => ?_, ?_⟩
  · have hne : j ≠ i := fun he => hj (he ▸ hi)
    rw [Function.update_of_ne hne]
    exact hout j hj
  · have hrest : ∑ j ∈ F.erase i, w (Function.update pc i p j) = ∑ j ∈ F.erase i, w (pc j) := by
      refine sum_congr rfl fun j hj => ?_
      rw [Function.update_of_ne (ne_of_mem_erase hj)]
    have hnew := sum_erase_add F (fun j => w (Function.update pc i p j)) hi
    have hold := sum_erase_add F (fun j => w (pc j)) hi
    simp only [Function.update_self] at hnew
    omega

end Total
end Census
