import Mathlib.Tactic

/-!
# Schedules of a partial machine

A machine whose steps can be impossible, and the runs of a given schedule. Invariants may speak of
the schedule that led to a state.
-/

namespace RdSpeTool.Schedule

variable {σ α : Type*} (step : σ → α → Option σ)

/-- The state after a schedule, if each of its steps was possible. -/
def run (s : σ) : List α → Option σ
  | [] => some s
  | a :: as => (step s a).bind fun t => run t as

variable {step} {s t : σ} {as bs : List α} {a : α}

theorem run_append : run step s (as ++ bs) = (run step s as).bind fun t => run step t bs := by
  induction as generalizing s with
  | nil => rfl
  | cons a as ih =>
      rw [List.cons_append, run, run]
      cases step s a with
      | none => rfl
      | some m => exact ih

theorem exists_of_run_append (h : run step s (as ++ bs) = some t) :
    ∃ m, run step s as = some m ∧ run step m bs = some t := by
  rw [run_append] at h
  exact Option.bind_eq_some_iff.mp h

theorem exists_of_run_cons (h : run step s (a :: as) = some t) :
    ∃ m, step s a = some m ∧ run step m as = some t :=
  Option.bind_eq_some_iff.mp h

theorem exists_of_run_concat (h : run step s (as ++ [a]) = some t) :
    ∃ m, run step s as = some m ∧ step m a = some t := by
  obtain ⟨m, hm, hrun⟩ := exists_of_run_append h
  obtain ⟨m', hstep, hnil⟩ := exists_of_run_cons hrun
  exact ⟨m, hm, hstep.trans hnil⟩

/-- What holds at the start and is kept by every step holds after every run. -/
theorem run_induction {P : List α → σ → Prop} (hinit : P [] s)
    (hstep : ∀ as m a t, run step s as = some m → P as m → step m a = some t → P (as ++ [a]) t)
    (h : run step s as = some t) : P as t := by
  induction as using List.reverseRecOn generalizing t with
  | nil => exact Option.some.inj h ▸ hinit
  | append_singleton as a ih =>
      obtain ⟨m, hm, hlast⟩ := exists_of_run_concat h
      exact hstep as m a t hm (ih hm) hlast

/-- A property of states that every step keeps. -/
theorem run_invariant {P : σ → Prop} (hstep : ∀ m a t, P m → step m a = some t → P t)
    (hs : P s) (h : run step s as = some t) : P t :=
  run_induction (P := fun _ => P) hs (fun _ m a t _ hm ht => hstep m a t hm ht) h

end RdSpeTool.Schedule
