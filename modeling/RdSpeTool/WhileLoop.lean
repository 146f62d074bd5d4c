import Mathlib.Tactic

/-!
# While loops

A loop that may not end, as the states in which it has ended after so many rounds. A loop ends in
the first iterate of its body that fails its test.
-/

namespace RdSpeTool.WhileLoop

variable {σ : Type*} (test : σ → Bool) (body : σ → σ)

/-- The state in which the loop has ended within so many rounds. -/
def runFor : ℕ → σ → Option σ
  | 0, s => if test s then none else some s
  | rounds + 1, s => if test s then runFor rounds (body s) else some s

def EndsIn (s t : σ) : Prop := ∃ rounds, runFor test body rounds s = some t

variable {test body} {s t : σ}

theorem runFor_of_test (h : test s = true) (rounds : ℕ) :
    runFor test body (rounds + 1) s = runFor test body rounds (body s) := if_pos h

theorem runFor_of_not_test (h : test s = false) (rounds : ℕ) :
    runFor test body rounds s = some s := by
  cases rounds with
  | zero => exact if_neg (by simp [h])
  | succ rounds => exact if_neg (by simp [h])

/-- The first iterate that fails the test is the end of the loop. -/
theorem runFor_eq_iterate {n : ℕ} (hbefore : ∀ k < n, test (body^[k] s) = true)
    (hend : test (body^[n] s) = false) : runFor test body n s = some (body^[n] s) := by
  induction n generalizing s with
  | zero => exact runFor_of_not_test hend 0
  | succ n ih =>
      have htest : test s = true := hbefore 0 (Nat.zero_lt_succ n)
      rw [runFor_of_test htest, Function.iterate_succ_apply]
      apply ih
      · intro k hk
        exact hbefore (k + 1) (Nat.succ_lt_succ hk)
      · exact hend

/-- Where a loop ends its test fails, so a loop whose test never fails does not end. -/
theorem exists_iterate_of_runFor {rounds : ℕ} (h : runFor test body rounds s = some t) :
    ∃ n ≤ rounds, t = body^[n] s ∧ test t = false ∧ ∀ k < n, test (body^[k] s) = true := by
  induction rounds generalizing s with
  | zero =>
      cases htest : test s with
      | true => simp [runFor, htest] at h
      | false =>
          rw [runFor_of_not_test htest] at h
          cases h
          exact ⟨0, le_rfl, rfl, htest, by simp⟩
  | succ rounds ih =>
      cases htest : test s with
      | true =>
          rw [runFor_of_test htest] at h
          obtain ⟨n, hn, ht, hfails, hbefore⟩ := ih h
          refine ⟨n + 1, by omega, ht, hfails, ?_⟩
          intro k hk
          cases k with
          | zero => exact htest
          | succ k => exact hbefore k (by omega)
      | false =>
          rw [runFor_of_not_test htest] at h
          cases h
          exact ⟨0, by omega, rfl, htest, by simp⟩

theorem not_endsIn (h : ∀ k, test (body^[k] s) = true) : ¬ EndsIn test body s t := by
  rintro ⟨rounds, hrun⟩
  obtain ⟨n, -, rfl, hfails, -⟩ := exists_iterate_of_runFor hrun
  rw [h n] at hfails
  cases hfails

end RdSpeTool.WhileLoop
