import Mathlib.Algebra.BigOperators.Group.Finset.Basic
import Mathlib.Algebra.Order.Group.Multiset
import Mathlib.Data.Multiset.AddSub
import Mathlib.Tactic

/-!
# Resources on a log

A log of acquisitions and releases, and what is still held at its end. Cleanup code is right when
nothing is held after it.
-/

namespace RdSpeTool.ResourceLog

variable {ρ : Type*}

inductive Entry (ρ : Type*)
  | acquire (r : ρ)
  | release (r : ρ)
  deriving DecidableEq

def Entry.acquired : Entry ρ → Option ρ
  | acquire r => some r
  | release _ => none

def Entry.released : Entry ρ → Option ρ
  | acquire _ => none
  | release r => some r

def acquired (log : List (Entry ρ)) : List ρ := log.filterMap Entry.acquired

def released (log : List (Entry ρ)) : List ρ := log.filterMap Entry.released

/-- Everything acquired was released exactly once, except for what is held. -/
def Holds (log : List (Entry ρ)) (held : List ρ) : Prop :=
  (acquired log).Perm (released log ++ held)

variable {log log' : List (Entry ρ)} {held held' : List ρ}

@[simp] theorem acquired_append : acquired (log ++ log') = acquired log ++ acquired log' :=
  List.filterMap_append

@[simp] theorem released_append : released (log ++ log') = released log ++ released log' :=
  List.filterMap_append

@[simp] theorem acquired_map_acquire (rs : List ρ) : acquired (rs.map Entry.acquire) = rs := by
  simp [acquired, List.filterMap_map, Function.comp_def, Entry.acquired]

@[simp] theorem released_map_acquire (rs : List ρ) : released (rs.map Entry.acquire) = [] := by
  simp [released, List.filterMap_map, Function.comp_def, Entry.released]

@[simp] theorem acquired_map_release (rs : List ρ) : acquired (rs.map Entry.release) = [] := by
  simp [acquired, List.filterMap_map, Function.comp_def, Entry.acquired]

@[simp] theorem released_map_release (rs : List ρ) : released (rs.map Entry.release) = rs := by
  simp [released, List.filterMap_map, Function.comp_def, Entry.released]

theorem Holds.nil : Holds ([] : List (Entry ρ)) [] := List.Perm.refl _

theorem Holds.perm (h : Holds log held) (hp : held.Perm held') : Holds log held' :=
  List.Perm.trans h (hp.append_left _)

theorem Holds.append (h : Holds log held) (h' : Holds log' held') :
    Holds (log ++ log') (held ++ held') := by
  unfold Holds
  rw [acquired_append, released_append]
  refine (List.Perm.append h h').trans ?_
  rw [List.append_assoc, List.append_assoc]
  refine List.Perm.append_left _ ?_
  rw [← List.append_assoc, ← List.append_assoc]
  exact List.perm_append_comm.append_right _

theorem Holds.acquire (h : Holds log held) (rs : List ρ) :
    Holds (log ++ rs.map Entry.acquire) (held ++ rs) :=
  h.append (by simp [Holds])

theorem Holds.release {rs : List ρ} (h : Holds log (rs ++ held)) :
    Holds (log ++ rs.map Entry.release) held := by
  unfold Holds
  rw [acquired_append, released_append, acquired_map_release, released_map_release,
    List.append_nil, List.append_assoc]
  exact h

/-- Nothing is left exactly when the acquired and the released resources are the same. -/
theorem Holds.settled_iff (h : Holds log held) :
    (acquired log).Perm (released log) ↔ held = [] := by
  constructor
  · intro hsame
    have hlen := hsame.length_eq
    rw [h.length_eq, List.length_append] at hlen
    exact List.length_eq_zero_iff.mp (by omega)
  · rintro rfl
    simpa [Holds] using h

/-- What is held after the log, from what was held before. -/
def settle [DecidableEq ρ] (held : Multiset ρ) (log : List (Entry ρ)) : Multiset ρ :=
  held + ↑(acquired log) - ↑(released log)

theorem settle_of_perm [DecidableEq ρ] (held : Multiset ρ)
    (h : (acquired log).Perm (released log)) : settle held log = held := by
  unfold settle
  rw [Multiset.coe_eq_coe.mpr h, Multiset.add_sub_cancel_right]

theorem Holds.settle [DecidableEq ρ] (h : Holds log held) (before : Multiset ρ) :
    settle before log = before + ↑held := by
  unfold ResourceLog.settle
  rw [Multiset.coe_eq_coe.mpr h, ← Multiset.coe_add, ← add_assoc, add_right_comm,
    Multiset.add_sub_cancel_right]

theorem mem_settle [DecidableEq ρ] {before : Multiset ρ} {r : ρ} (hmem : r ∈ before)
    (hr : r ∉ released log) : r ∈ settle before log := by
  rw [← Multiset.count_pos] at hmem ⊢
  unfold settle
  rw [Multiset.count_sub, Multiset.count_add, Multiset.coe_count r (released log),
    List.count_eq_zero_of_not_mem hr]
  omega

/-! ## Owners -/

section Owners

variable {ι σ : Type*} {slots : ι → Option σ} {w : σ → Multiset ρ}

/-- Only the slots in use own something, and together they own what is held. -/
def OwnedBy (slots : ι → Option σ) (w : σ → Multiset ρ) (held : Multiset ρ) : Prop :=
  ∃ used : Finset ι, (∀ i, i ∈ used ↔ slots i ≠ none) ∧ held = ∑ i ∈ used, (slots i).elim 0 w

theorem OwnedBy.eq_zero {held : Multiset ρ} (h : OwnedBy slots w held) (hnone : ∀ i, slots i = none) :
    held = 0 := by
  obtain ⟨used, -, rfl⟩ := h
  exact Finset.sum_eq_zero fun i _ => by rw [hnone i, Option.elim_none]

theorem OwnedBy.empty : OwnedBy (fun _ : ι => none) w 0 :=
  ⟨∅, fun _ => by simp, rfl⟩

/-- What one slot owns can be split off. -/
theorem OwnedBy.split [DecidableEq ι] {held : Multiset ρ} (h : OwnedBy slots w held) (i : ι) :
    ∃ rest, held = rest + (slots i).elim 0 w ∧
      ∀ new, OwnedBy (Function.update slots i new) w (rest + new.elim 0 w) := by
  obtain ⟨used, hused, rfl⟩ := h
  refine ⟨∑ j ∈ used.erase i, (slots j).elim 0 w, ?_, fun new => ?_⟩
  · by_cases hi : i ∈ used
    · exact (Finset.sum_erase_add used _ hi).symm
    · have hnone : slots i = none := by simpa using (hused i).not.mp hi
      rw [Finset.erase_eq_of_notMem hi, hnone, Option.elim_none, add_zero]
  · have hother : ∀ j ∈ used.erase i,
        (Function.update slots i new j).elim 0 w = (slots j).elim 0 w := by
      intro j hj
      rw [Function.update_of_ne (Finset.ne_of_mem_erase hj)]
    have hmem : ∀ j, j ≠ i → (j ∈ used.erase i ↔ Function.update slots i new j ≠ none) := by
      intro j hj
      rw [Function.update_of_ne hj, Finset.mem_erase, hused j]
      exact and_iff_right hj
    cases new with
    | none =>
        refine ⟨used.erase i, fun j => ?_, ?_⟩
        · by_cases hj : j = i
          · subst hj
            simp
          · exact hmem j hj
        · rw [Option.elim_none, add_zero, Finset.sum_congr rfl hother]
    | some x =>
        refine ⟨insert i (used.erase i), fun j => ?_, ?_⟩
        · by_cases hj : j = i
          · subst hj
            simp
          · rw [Finset.mem_insert, or_iff_right hj]
            exact hmem j hj
        · rw [Finset.sum_insert (Finset.notMem_erase i used), Finset.sum_congr rfl hother,
            Function.update_self, add_comm]

/-- A log that turns what one owner has into something else. -/
theorem settle_owner [DecidableEq ρ] (rest : Multiset ρ) {mine mine' : Multiset ρ}
    (h : mine + ↑(acquired log) = mine' + ↑(released log)) :
    settle (rest + mine) log = rest + mine' ∧
      ↑(released log) ≤ rest + mine + (↑(acquired log) : Multiset ρ) := by
  have htotal : rest + mine + (↑(acquired log) : Multiset ρ) =
      rest + mine' + (↑(released log) : Multiset ρ) := by
    rw [add_assoc, h, ← add_assoc]
  refine ⟨?_, ?_⟩
  · unfold settle
    rw [htotal, Multiset.add_sub_cancel_right]
  · rw [htotal]
    exact Multiset.le_add_left _ _

end Owners

/-! ## A loop of acquisitions -/

variable {ε α : Type*}

def acquireAll (answer : ℕ → Except ε α) : ℕ → ℕ → List α × Option (ℕ × ε)
  | _, 0 => ([], none)
  | i, n + 1 =>
      match answer i with
      | .error e => ([], some (i, e))
      | .ok r => (r :: (acquireAll answer (i + 1) n).1, (acquireAll answer (i + 1) n).2)

/-- All succeed, or the loop stops at the first that does not. -/
theorem acquireAll_cases (answer : ℕ → Except ε α) (i n : ℕ) :
    ((acquireAll answer i n).2 = none ∧ (acquireAll answer i n).1.length = n ∧
      ∀ j < n, (answer (i + j)).isOk = true) ∨
    ∃ j < n, ∃ e, (acquireAll answer i n).2 = some (i + j, e) ∧
      (acquireAll answer i n).1.length = j ∧ answer (i + j) = .error e ∧
      ∀ q < j, (answer (i + q)).isOk = true := by
  induction n generalizing i with
  | zero => exact .inl ⟨rfl, rfl, fun j hj => absurd hj (Nat.not_lt_zero j)⟩
  | succ n ih =>
      rw [acquireAll]
      cases hi : answer i with
      | error e =>
          exact .inr ⟨0, Nat.succ_pos n, e, rfl, rfl, hi, fun q hq => absurd hq (Nat.not_lt_zero q)⟩
      | ok r =>
          have hidx : ∀ j, i + 1 + j = i + (j + 1) := fun j => by omega
          have hhead : ∀ q, (∀ j < q, (answer (i + (j + 1))).isOk = true) →
              ∀ j < q + 1, (answer (i + j)).isOk = true := by
            intro q hq j hj
            cases j with
            | zero =>
                rw [Nat.add_zero, hi]
                rfl
            | succ j => exact hq j (Nat.lt_of_succ_lt_succ hj)
          have hrest := ih (i + 1)
          simp only [hidx] at hrest
          obtain ⟨hnone, hlen, hok⟩ | ⟨j, hj, e, hsome, hlen, hbad, hok⟩ := hrest
          · exact .inl ⟨hnone, congrArg Nat.succ hlen, hhead n hok⟩
          · exact .inr ⟨j + 1, Nat.succ_lt_succ hj, e, hsome, congrArg Nat.succ hlen, hbad,
              hhead j hok⟩

def filled (n : ℕ) (rs : List α) : List (Option α) :=
  rs.map some ++ List.replicate (n - rs.length) none

theorem filterMap_filled (f : α → ρ) (n : ℕ) (rs : List α) :
    (filled n rs).filterMap (Option.map f) = rs.map f := by
  unfold filled
  rw [List.filterMap_append, List.filterMap_map]
  simp

end RdSpeTool.ResourceLog
