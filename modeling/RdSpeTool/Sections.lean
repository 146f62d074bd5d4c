import Mathlib.Tactic

/-!
# Sections of a list

Some members of a list are headings. A section is a heading with the members up to the next heading;
what stands before the first heading belongs to no section.
-/

namespace RdSpeTool.Sections

variable {α β : Type*} (head : α → Option β)

def body (l : List α) : List α := l.takeWhile fun a => (head a).isNone

def sections : List α → List (β × List α)
  | [] => []
  | a :: l =>
      match head a with
      | some b => (b, body head l) :: sections l
      | none => sections l

variable {head}

theorem body_cons_heading {a : α} {b : β} (h : head a = some b) (l : List α) :
    body head (a :: l) = [] := by
  unfold body
  rw [List.takeWhile_cons_of_neg (by simp [h])]

theorem body_cons_member {a : α} (h : head a = none) (l : List α) :
    body head (a :: l) = a :: body head l := by
  unfold body
  rw [List.takeWhile_cons_of_pos (by simp [h])]

theorem sections_cons_heading {a : α} {b : β} (h : head a = some b) (l : List α) :
    sections head (a :: l) = (b, body head l) :: sections head l := by
  rw [sections, h]

theorem sections_cons_member {a : α} (h : head a = none) (l : List α) :
    sections head (a :: l) = sections head l := by
  rw [sections, h]

/-! ## Lists that end in a heading or in a member -/

theorem body_append_heading {a : α} {b : β} (h : head a = some b) (l l' : List α) :
    body head (l ++ a :: l') = body head l := by
  induction l with
  | nil => exact body_cons_heading h l'
  | cons c l ih =>
      rw [List.cons_append]
      cases hc : head c with
      | some b' => rw [body_cons_heading hc, body_cons_heading hc]
      | none => rw [body_cons_member hc, body_cons_member hc, ih]

/-- A heading ends the section before it. -/
theorem sections_append_heading {a : α} {b : β} (h : head a = some b) (l l' : List α) :
    sections head (l ++ a :: l') = sections head l ++ (b, body head l') :: sections head l' := by
  induction l with
  | nil => exact sections_cons_heading h l'
  | cons c l ih =>
      rw [List.cons_append]
      cases hc : head c with
      | some b' =>
          rw [sections_cons_heading hc, sections_cons_heading hc, ih, body_append_heading h,
            List.cons_append]
      | none => rw [sections_cons_member hc, sections_cons_member hc, ih]

theorem sections_eq_nil {l : List α} : sections head l = [] ↔ ∀ a ∈ l, head a = none := by
  induction l with
  | nil => simp [sections]
  | cons a l ih =>
      rw [List.forall_mem_cons]
      cases ha : head a with
      | some b => simp [sections_cons_heading ha]
      | none => simp [sections_cons_member ha, ih]

theorem body_eq_self {l : List α} (h : ∀ a ∈ l, head a = none) : body head l = l := by
  induction l with
  | nil => rfl
  | cons a l ih =>
      rw [List.forall_mem_cons] at h
      rw [body_cons_member h.1, ih h.2]

theorem sections_concat_heading {a : α} {b : β} (h : head a = some b) (l : List α) :
    sections head (l ++ [a]) = sections head l ++ [(b, [])] :=
  sections_append_heading h l []

theorem sections_concat_none {a : α} (h : head a = none) {l : List α}
    (hl : sections head l = []) : sections head (l ++ [a]) = [] := by
  rw [sections_eq_nil] at hl ⊢
  rw [List.forall_mem_append, List.forall_mem_singleton]
  exact ⟨hl, h⟩

/-- A list that has a heading keeps its body. -/
theorem body_append {l : List α} (hl : sections head l ≠ []) (l' : List α) :
    body head (l ++ l') = body head l := by
  rw [Ne, sections_eq_nil] at hl
  push Not at hl
  obtain ⟨x, hx, hne⟩ := hl
  obtain ⟨b, hb⟩ := Option.ne_none_iff_exists'.mp hne
  obtain ⟨l₁, l₂, rfl⟩ := List.append_of_mem hx
  rw [List.append_assoc, List.cons_append, body_append_heading hb, body_append_heading hb]

/-- A member belongs to the last section. -/
theorem sections_concat_member {a : α} (h : head a = none) {l : List α} {b : β} {m : List α}
    {before : List (β × List α)} (hl : sections head l = before ++ [(b, m)]) :
    sections head (l ++ [a]) = before ++ [(b, m ++ [a])] := by
  induction l generalizing before with
  | nil => cases before <;> cases hl
  | cons c l ih =>
      rw [List.cons_append]
      cases hc : head c with
      | none =>
          rw [sections_cons_member hc] at hl ⊢
          exact ih hl
      | some b' =>
          rw [sections_cons_heading hc] at hl ⊢
          cases before with
          | nil =>
              obtain ⟨hpair, hrest⟩ := List.cons.inj hl
              obtain ⟨rfl, rfl⟩ := Prod.mk.inj hpair
              have hnone := sections_eq_nil.mp hrest
              have hall : ∀ x ∈ l ++ [a], head x = none := by
                rw [List.forall_mem_append, List.forall_mem_singleton]
                exact ⟨hnone, h⟩
              rw [body_eq_self hall, body_eq_self hnone, sections_eq_nil.mpr hall]
              rfl
          | cons s before =>
              obtain ⟨rfl, hrest⟩ := List.cons.inj hl
              have hne : sections head l ≠ [] := by
                rw [hrest]
                simp
              rw [body_append hne, ih hrest, List.cons_append]

/-! ## Whole lists -/

end RdSpeTool.Sections
