import RdSpeTool.CText

/-!
# Text functions of Python

A `str` is the list of its characters. White space is what `str.isspace` accepts; digits are those
of ASCII. The second half reads back what `str` and `format` print of an `int`.
-/

namespace PyText

open CText (digitValue digitsValue splitSign getlines)

/-- The code points of white space beside the ASCII range. -/
def wideSpaces : List ℕ :=
  [0x85, 0xa0, 0x1680, 0x2000, 0x2001, 0x2002, 0x2003, 0x2004, 0x2005, 0x2006, 0x2007, 0x2008,
    0x2009, 0x200a, 0x2028, 0x2029, 0x202f, 0x205f, 0x3000]

def isspace (c : Char) : Bool :=
  (9 ≤ c.toNat && c.toNat ≤ 13) || (28 ≤ c.toNat && c.toNat ≤ 32) || wideSpaces.contains c.toNat

def isdecimal (c : Char) : Bool := 48 ≤ c.toNat && c.toNat ≤ 57

def strip (s : List Char) : List Char :=
  ((s.dropWhile isspace).reverse.dropWhile isspace).reverse

def decimalValue (s : List Char) : ℕ := s.foldl (fun n c => 10 * n + (c.toNat - 48)) 0

/-- What text mode makes of the line ends of a file. -/
def universalNewlines : List Char → List Char
  | '\r' :: '\n' :: s => '\n' :: universalNewlines s
  | '\r' :: s => '\n' :: universalNewlines s
  | c :: s => c :: universalNewlines s
  | [] => []

def fileLines (s : List Char) : List (List Char) := getlines '\n' [] (universalNewlines s)

/-- `s.split(sep, 1)` of a text that has the separator. -/
def splitOnce (sep : Char) (s : List Char) : List Char × List Char :=
  (s.takeWhile (· != sep), (s.dropWhile (· != sep)).drop 1)

/-- Digits without the underscores that may stand between two of them. -/
def ungroup (p : Char → Bool) : List Char → Option (List Char)
  | [] => none
  | [c] => if p c then some [c] else none
  | c :: '_' :: s => if p c then (ungroup p s).map (c :: ·) else none
  | c :: s => if p c then (ungroup p s).map (c :: ·) else none

/-- The prefix of a hexadecimal literal, which `int` with base 16 skips. -/
def dropHexMark : List Char → List Char
  | '0' :: x :: s =>
      if x = 'x' ∨ x = 'X' then
        match s with
        | '_' :: s => s
        | s => s
      else '0' :: x :: s
  | s => s

/-- `int(s, base)` for the bases 10 and 16. -/
def parseInt (base : ℕ) (s : List Char) : Option ℤ :=
  let signed := splitSign (strip s)
  let body := if base = 16 then dropHexMark signed.2 else signed.2
  (ungroup (digitValue · < base) body).map fun ds =>
    if signed.1 then -(digitsValue base ds : ℤ) else digitsValue base ds

/-- The digits of an `int` in a base, as `str` and `format` print them. -/
def formatInt (base : ℕ) (i : ℤ) : List Char :=
  if i < 0 then '-' :: Nat.toDigits base i.natAbs else Nat.toDigits base i.natAbs

/-! ## Lines -/

theorem universalNewlines_of_notMem {s : List Char} (h : '\r' ∉ s) : universalNewlines s = s := by
  induction s with
  | nil => rfl
  | cons c s ih =>
      rw [List.mem_cons, not_or] at h
      rw [universalNewlines.eq_3, ih h.2]
      · exact fun _ hc => absurd hc.symm h.1
      · exact fun hc => absurd hc.symm h.1

/-- Lines that were written are the lines that are read. -/
theorem fileLines_flatMap {α : Type*} {f : α → List Char} {l : List α}
    (h : ∀ x ∈ l, '\n' ∉ f x ∧ '\r' ∉ f x) :
    fileLines (l.flatMap fun x => f x ++ ['\n']) = l.map f := by
  unfold fileLines
  rw [universalNewlines_of_notMem, CText.getlines_flatMap fun x hx => (h x hx).1]
  intro hmem
  obtain ⟨x, hx, hmem⟩ := List.mem_flatMap.mp hmem
  rw [List.mem_append, List.mem_singleton] at hmem
  rcases hmem with hmem | hmem
  · exact (h x hx).2 hmem
  · exact absurd hmem (by decide)

theorem splitOnce_append {sep : Char} {key : List Char} (h : sep ∉ key) (value : List Char) :
    splitOnce sep (key ++ sep :: value) = (key, value) := by
  have hall : ∀ c ∈ key, (c != sep) = true := by
    intro c hc
    rw [bne_iff_ne]
    rintro rfl
    exact h hc
  unfold splitOnce
  rw [List.takeWhile_append_of_pos hall, List.dropWhile_append_of_pos hall,
    List.takeWhile_cons_of_neg (by simp), List.dropWhile_cons_of_neg (by simp), List.append_nil]
  rfl

/-! ## Numbers -/

theorem isspace_of_ascii {c : Char} (h1 : 32 < c.toNat) (h2 : c.toNat < 128) :
    isspace c = false := by
  have hwide : wideSpaces.contains c.toNat = false := by
    rw [List.contains_eq_mem, decide_eq_false_iff_not]
    intro hmem
    have hall : ∀ n ∈ wideSpaces, 128 ≤ n := by decide
    have := hall _ hmem
    omega
  unfold isspace
  rw [hwide, Bool.or_false, Bool.or_eq_false_iff, Bool.and_eq_false_iff, Bool.and_eq_false_iff]
  simp only [decide_eq_false_iff_not]
  omega

theorem strip_of_visible {s : List Char} (h : ∀ c ∈ s, isspace c = false) : strip s = s := by
  have hdrop : ∀ t : List Char, (∀ c ∈ t, isspace c = false) → t.dropWhile isspace = t := by
    intro t ht
    cases t with
    | nil => rfl
    | cons c t => exact List.dropWhile_cons_of_neg (by simp [ht c List.mem_cons_self])
  unfold strip
  rw [hdrop s h, hdrop s.reverse fun c hc => h c (List.mem_reverse.mp hc), List.reverse_reverse]

theorem mem_of_mem_strip {s : List Char} {c : Char} (h : c ∈ strip s) : c ∈ s := by
  rw [strip, List.mem_reverse] at h
  have hback := List.dropWhile_subset _ h
  rw [List.mem_reverse] at hback
  exact List.dropWhile_subset _ hback

theorem toNat_of_digitValue {c : Char} (h : digitValue c < 36) : 48 ≤ c.toNat ∧ c.toNat < 128 := by
  unfold digitValue at h
  simp only [Char.le_def, UInt32.le_iff_toNat_le] at h
  change (if 48 ≤ c.toNat ∧ c.toNat ≤ 57 then _ else if 97 ≤ c.toNat ∧ c.toNat ≤ 122 then _
    else if 65 ≤ c.toNat ∧ c.toNat ≤ 90 then _ else 36) < 36 at h
  split_ifs at h
  all_goals omega

theorem ungroup_of_digits {p : Char → Bool} (hp : p '_' = false) {s : List Char} (hne : s ≠ [])
    (h : ∀ c ∈ s, p c = true) : ungroup p s = some s := by
  induction s with
  | nil => exact absurd rfl hne
  | cons c s ih =>
      rw [List.forall_mem_cons] at h
      cases s with
      | nil => rw [ungroup, if_pos h.1]
      | cons d s =>
          have hd : d ≠ '_' := by
            rintro rfl
            rw [h.2 '_' List.mem_cons_self] at hp
            cases hp
          rw [ungroup.eq_4, if_pos h.1, ih (by simp) h.2, Option.map_some]
          · exact fun he => absurd he (List.cons_ne_nil _ _)
          · exact fun t he => hd (List.cons.inj he).1

section Numerals

variable {base : ℕ} (hbase : base = 10 ∨ base = 16)

include hbase

theorem toDigits_digit {n : ℕ} {c : Char} (hc : c ∈ Nat.toDigits base n) : digitValue c < base :=
  CText.digitValue_lt_of_mem (by omega) (by omega) hc

theorem ungroup_toDigits (n : ℕ) :
    ungroup (digitValue · < base) (Nat.toDigits base n) = some (Nat.toDigits base n) := by
  apply ungroup_of_digits
  · rcases hbase with rfl | rfl <;> decide
  · exact Nat.toDigits_ne_nil
  · intro c hc
    exact decide_eq_true (toDigits_digit hbase hc)

theorem dropHexMark_toDigits (n : ℕ) : dropHexMark (Nat.toDigits base n) = Nat.toDigits base n := by
  unfold dropHexMark
  split
  · rename_i x s he
    have hx : digitValue x < base := by
      apply toDigits_digit hbase (n := n)
      rw [he]
      exact List.mem_cons_of_mem _ List.mem_cons_self
    rw [if_neg, he]
    rintro (rfl | rfl)
    · rcases hbase with rfl | rfl <;> exact absurd hx (by decide)
    · rcases hbase with rfl | rfl <;> exact absurd hx (by decide)
  · rfl

/-- Printed numbers have neither blanks nor other control characters. -/
theorem formatInt_visible {i : ℤ} {c : Char} (hc : c ∈ formatInt base i) :
    32 < c.toNat ∧ c.toNat < 128 := by
  have hdigit : c ∈ Nat.toDigits base i.natAbs → 32 < c.toNat ∧ c.toNat < 128 := by
    intro h
    have hv := toDigits_digit hbase h
    have := toNat_of_digitValue (c := c) (by omega)
    omega
  unfold formatInt at hc
  split_ifs at hc
  · rcases List.mem_cons.mp hc with rfl | hc
    · decide
    · exact hdigit hc
  · exact hdigit hc

theorem parseInt_formatInt (i : ℤ) : parseInt base (formatInt base i) = some i := by
  have hstrip : strip (formatInt base i) = formatInt base i := by
    apply strip_of_visible
    intro c hc
    obtain ⟨h1, h2⟩ := formatInt_visible hbase hc
    exact isspace_of_ascii h1 h2
  have hsign : splitSign (formatInt base i) = (decide (i < 0), Nat.toDigits base i.natAbs) := by
    unfold formatInt
    by_cases hneg : i < 0
    · rw [if_pos hneg, decide_eq_true hneg]
      rfl
    · rw [if_neg hneg, decide_eq_false hneg]
      obtain ⟨c, s, hs, hc⟩ := @CText.toDigits_head base (by omega) (by omega) i.natAbs
      rw [hs]
      exact (CText.splitSign_of_digit hc s).2
  have hbody : (if base = 16 then dropHexMark (Nat.toDigits base i.natAbs)
      else Nat.toDigits base i.natAbs) = Nat.toDigits base i.natAbs := by
    rw [dropHexMark_toDigits hbase, ite_self]
  unfold parseInt
  rw [hstrip, hsign]
  dsimp only
  rw [hbody, ungroup_toDigits hbase, Option.map_some,
    CText.digitsValue_toDigits (by omega) (by omega)]
  by_cases hneg : i < 0
  · rw [decide_eq_true hneg, if_pos rfl]
    congr 1
    omega
  · rw [decide_eq_false hneg, if_neg Bool.false_ne_true]
    congr 1
    omega

end Numerals

/-- The hexadecimal literal of a number. -/
theorem parseInt_hex (n : ℕ) : parseInt 16 ('0' :: 'x' :: formatInt 16 n) = some (n : ℤ) := by
  have hformat : formatInt 16 n = Nat.toDigits 16 n := by
    unfold formatInt
    rw [if_neg (by omega), Int.natAbs_natCast]
  have hstrip : strip ('0' :: 'x' :: formatInt 16 n) = '0' :: 'x' :: formatInt 16 n := by
    apply strip_of_visible
    intro c hc
    rw [List.mem_cons, List.mem_cons] at hc
    rcases hc with rfl | rfl | hc
    · decide
    · decide
    · obtain ⟨h1, h2⟩ := formatInt_visible (.inr rfl) hc
      exact isspace_of_ascii h1 h2
  have hmark : dropHexMark ('0' :: 'x' :: Nat.toDigits 16 n) = Nat.toDigits 16 n := by
    obtain ⟨c, s, hs, hc⟩ := @CText.toDigits_head 16 (by decide) (by decide) n
    have hc' : c ≠ '_' := by
      rintro rfl
      exact absurd hc (by decide)
    rw [hs]
    simp [dropHexMark, hc']
  unfold parseInt
  rw [hstrip, hformat]
  change (ungroup _ (dropHexMark ('0' :: 'x' :: Nat.toDigits 16 n))).map _ = _
  rw [hmark, ungroup_toDigits (.inr rfl), Option.map_some,
    CText.digitsValue_toDigits (by decide) (by decide)]
  rfl

end PyText
