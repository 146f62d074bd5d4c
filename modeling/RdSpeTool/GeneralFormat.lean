import Mathlib.Data.Int.Log
import Mathlib.Data.List.DropRight
import RdSpeTool.PyText

/-!
# The general format of floating-point numbers

The conversion that `%.Pg` of C, a default `std::ostream` and the format `.Pg` of Python share, on
the exact value of a `double`, and the texts that `float` of Python reads. Which `double` is nearest
to a decimal number is left open.
-/

namespace GeneralFormat

open PyText
open CText (digitsValue splitSign digitValue)

inductive Double
  | finite (q : ℚ)
  | infinite (negative : Bool)
  | nan
  deriving DecidableEq

/-! ## Printing -/

/-- The nearest natural number, the even one of two. -/
def roundEven (a : ℚ) : ℕ :=
  let f := ⌊a⌋₊
  if a - f < 1 / 2 then f
  else if 1 / 2 < a - f then f + 1
  else if f % 2 = 0 then f
  else f + 1

/-- Mantissa of `p` digits and exponent of a positive number. -/
def scientific (p : ℕ) (a : ℚ) : ℕ × ℤ :=
  let e := Int.log 10 a
  let m := roundEven (a / 10 ^ (e - (p - 1)))
  if m = 10 ^ p then (10 ^ (p - 1), e + 1) else (m, e)

def fraction (whole frac : List Char) : List Char :=
  let frac := frac.rdropWhile (· == '0')
  if frac = [] then whole else whole ++ '.' :: frac

/-- An exponent has at least two digits. -/
def exponentText (e : ℤ) : List Char :=
  'e' :: (if e < 0 then '-' else '+') ::
    (if e.natAbs < 10 then '0' :: Nat.toDigits 10 e.natAbs else Nat.toDigits 10 e.natAbs)

def formatPositive (p : ℕ) (a : ℚ) : List Char :=
  let ds := Nat.toDigits 10 (scientific p a).1
  let e := (scientific p a).2
  if e < -4 ∨ p ≤ e then fraction (ds.take 1) (ds.drop 1) ++ exponentText e
  else if 0 ≤ e then fraction (ds.take (e.toNat + 1)) (ds.drop (e.toNat + 1))
  else fraction ['0'] (List.replicate (-e - 1).toNat '0' ++ ds)

def formatG (p : ℕ) (q : ℚ) : List Char :=
  if q = 0 then ['0']
  else if q < 0 then '-' :: formatPositive p (-q)
  else formatPositive p q

def Double.format (p : ℕ) : Double → List Char
  | .finite q => formatG p q
  | .infinite negative => if negative then ['-', 'i', 'n', 'f'] else ['i', 'n', 'f']
  | .nan => ['n', 'a', 'n']

/-! ## Reading -/

def digitGroup (s : List Char) : Option (List Char) :=
  if s = [] then some [] else ungroup isdecimal s

/-- Mantissa digits and how many of them stand behind the point. -/
def readMantissa (s : List Char) : Option (ℕ × ℕ) := do
  let whole ← digitGroup (s.takeWhile (· != '.'))
  let frac ← digitGroup ((s.dropWhile (· != '.')).drop 1)
  if whole ++ frac = [] then none
  else some (digitsValue 10 (whole ++ frac), frac.length)

def readExponent : List Char → Option ℤ
  | [] => some 0
  | _ :: s =>
      let signed := splitSign s
      (ungroup isdecimal signed.2).map fun ds =>
        if signed.1 then -(digitsValue 10 ds : ℤ) else digitsValue 10 ds

def isExponentMark (c : Char) : Bool := c == 'e' || c == 'E'

def readDecimal (s : List Char) : Option ℚ := do
  let mantissa ← readMantissa (s.takeWhile (!isExponentMark ·))
  let exponent ← readExponent (s.dropWhile (!isExponentMark ·))
  some (mantissa.1 * 10 ^ (exponent - mantissa.2))

/-- `float(s)`; `nearest` gives the `double` for an exact value. -/
def parseFloat (nearest : ℚ → Double) (s : List Char) : Option Double :=
  let signed := splitSign (strip s)
  let name := signed.2.map Char.toLower
  if name = ['i', 'n', 'f'] ∨ name = ['i', 'n', 'f', 'i', 'n', 'i', 't', 'y'] then
    some (.infinite signed.1)
  else if name = ['n', 'a', 'n'] then some .nan
  else (readDecimal signed.2).map fun q => nearest (if signed.1 then -q else q)

/-! ## What is printed can be read -/

theorem isdecimal_of_mem {n : ℕ} {c : Char} (h : c ∈ Nat.toDigits 10 n) : isdecimal c = true := by
  have hv : digitValue c < 10 := toDigits_digit (.inl rfl) h
  have hrange := toNat_of_digitValue (c := c) (by omega)
  unfold digitValue at hv
  simp only [Char.le_def, UInt32.le_iff_toNat_le] at hv
  change (if 48 ≤ c.toNat ∧ c.toNat ≤ 57 then _ else if 97 ≤ c.toNat ∧ c.toNat ≤ 122 then
    c.toNat - 87 else if 65 ≤ c.toNat ∧ c.toNat ≤ 90 then c.toNat - 55 else 36) < 10 at hv
  unfold isdecimal
  rw [Bool.and_eq_true, decide_eq_true_eq, decide_eq_true_eq]
  split_ifs at hv
  all_goals omega

theorem toNat_of_isdecimal {c : Char} (h : isdecimal c = true) : 48 ≤ c.toNat ∧ c.toNat ≤ 57 := by
  unfold isdecimal at h
  rwa [Bool.and_eq_true, decide_eq_true_eq, decide_eq_true_eq] at h

theorem digitGroup_of_digits {s : List Char} (h : ∀ c ∈ s, isdecimal c = true) :
    digitGroup s = some s := by
  unfold digitGroup
  split_ifs with hs
  · rw [hs]
  · exact ungroup_of_digits (by decide) hs h

/-- A fraction whose digits are `w` before the point and some of `f` behind it. -/
theorem fraction_cases {w f : List Char} (hf : ∀ c ∈ f, isdecimal c = true) :
    fraction w f = w ∨
      ∃ d, d ≠ [] ∧ (∀ c ∈ d, isdecimal c = true) ∧ fraction w f = w ++ '.' :: d := by
  unfold fraction
  dsimp only
  split_ifs with hnil
  · exact .inl rfl
  · refine .inr ⟨_, hnil, fun c hc => hf c ?_, rfl⟩
    exact (List.rdropWhile_prefix _ f).subset hc

section Fraction

variable {w f : List Char} (hne : w ≠ []) (hw : ∀ c ∈ w, isdecimal c = true)
  (hf : ∀ c ∈ f, isdecimal c = true)

include hw hf

theorem fraction_mem {c : Char} (hc : c ∈ fraction w f) : isdecimal c = true ∨ c = '.' := by
  obtain heq | ⟨d, -, hd, heq⟩ := fraction_cases (w := w) hf
  · rw [heq] at hc
    exact .inl (hw c hc)
  · rw [heq, List.mem_append, List.mem_cons] at hc
    rcases hc with hc | hc | hc
    · exact .inl (hw c hc)
    · exact .inr hc
    · exact .inl (hd c hc)

include hne

theorem readMantissa_fraction : (readMantissa (fraction w f)).isSome = true := by
  have hpoint : ∀ c ∈ w, (c != '.') = true := by
    intro c hc
    rw [bne_iff_ne]
    rintro rfl
    exact absurd (hw _ hc) (by decide)
  obtain heq | ⟨d, -, hd, heq⟩ := fraction_cases (w := w) hf
  · have htake : w.takeWhile (· != '.') = w := List.takeWhile_eq_self_iff.mpr hpoint
    have hdrop : w.dropWhile (· != '.') = [] := List.dropWhile_eq_nil_iff.mpr hpoint
    have hnone : digitGroup (List.drop 1 []) = some [] := rfl
    rw [heq, readMantissa, htake, hdrop, digitGroup_of_digits hw, hnone]
    simp only [Option.bind_eq_bind, Option.bind_some, List.append_nil]
    rw [if_neg hne]
    rfl
  · have htake : (w ++ '.' :: d).takeWhile (· != '.') = w := by
      rw [List.takeWhile_append_of_pos hpoint, List.takeWhile_cons_of_neg (by decide),
        List.append_nil]
    have hdrop : ((w ++ '.' :: d).dropWhile (· != '.')).drop 1 = d := by
      rw [List.dropWhile_append_of_pos hpoint, List.dropWhile_cons_of_neg (by decide)]
      rfl
    have hall : w ++ d ≠ [] := by simp [hne]
    rw [heq, readMantissa, htake, hdrop, digitGroup_of_digits hw, digitGroup_of_digits hd]
    simp only [Option.bind_eq_bind, Option.bind_some]
    rw [if_neg hall]
    rfl

end Fraction

theorem exponentDigits_mem {n : ℕ} {c : Char}
    (hc : c ∈ if n < 10 then '0' :: Nat.toDigits 10 n else Nat.toDigits 10 n) :
    isdecimal c = true := by
  split_ifs at hc
  · rcases List.mem_cons.mp hc with rfl | hc
    · decide
    · exact isdecimal_of_mem hc
  · exact isdecimal_of_mem hc

theorem readExponent_exponentText (e : ℤ) : (readExponent (exponentText e)).isSome = true := by
  have hdigits : ungroup isdecimal (if e.natAbs < 10 then '0' :: Nat.toDigits 10 e.natAbs
      else Nat.toDigits 10 e.natAbs) = some (if e.natAbs < 10 then '0' :: Nat.toDigits 10 e.natAbs
      else Nat.toDigits 10 e.natAbs) := by
    apply ungroup_of_digits (by decide)
    · split_ifs
      · exact List.cons_ne_nil _ _
      · exact Nat.toDigits_ne_nil
    · intro c hc
      exact exponentDigits_mem hc
  have hsign : ∀ s, (splitSign ((if e < 0 then '-' else '+') :: s)).2 = s := by
    intro s
    split_ifs <;> rfl
  unfold exponentText readExponent
  dsimp only
  rw [Option.isSome_map, hsign, hdigits]
  rfl

/-- A positive number is a fraction, with or without an exponent. -/
theorem formatPositive_cases (p : ℕ) (a : ℚ) : ∃ w f, w ≠ [] ∧ (∀ c ∈ w, isdecimal c = true) ∧
    (∀ c ∈ f, isdecimal c = true) ∧
      ∃ t, (t = [] ∨ ∃ e, t = exponentText e) ∧ formatPositive p a = fraction w f ++ t := by
  have hne : ∀ k n, (Nat.toDigits 10 n).take (k + 1) ≠ [] := by
    intro k n h
    rw [List.take_eq_nil_iff] at h
    exact h.elim (by omega) Nat.toDigits_ne_nil
  have htake : ∀ k n, ∀ c ∈ (Nat.toDigits 10 n).take k, isdecimal c = true :=
    fun k n c hc => isdecimal_of_mem (List.mem_of_mem_take hc)
  have hdrop : ∀ k n, ∀ c ∈ (Nat.toDigits 10 n).drop k, isdecimal c = true :=
    fun k n c hc => isdecimal_of_mem (List.mem_of_mem_drop hc)
  unfold formatPositive
  dsimp only
  split_ifs
  · exact ⟨_, _, hne 0 _, htake _ _, hdrop _ _, _, .inr ⟨_, rfl⟩, rfl⟩
  · exact ⟨_, _, hne _ _, htake _ _, hdrop _ _, [], .inl rfl, (List.append_nil _).symm⟩
  · refine ⟨['0'], _, by decide, by simp [isdecimal], ?_, [], .inl rfl, (List.append_nil _).symm⟩
    intro c hc
    rw [List.mem_append, List.mem_replicate] at hc
    rcases hc with ⟨-, rfl⟩ | hc
    · decide
    · exact isdecimal_of_mem hc

theorem formatPositive_visible {p : ℕ} {a : ℚ} {c : Char} (hc : c ∈ formatPositive p a) :
    32 < c.toNat ∧ c.toNat < 128 := by
  have hdigit : isdecimal c = true → 32 < c.toNat ∧ c.toNat < 128 := by
    intro h
    have := toNat_of_isdecimal h
    omega
  obtain ⟨w, f, -, hw, hf, t, ht, heq⟩ := formatPositive_cases p a
  rw [heq, List.mem_append] at hc
  rcases hc with hc | hc
  · rcases fraction_mem hw hf hc with h | rfl
    · exact hdigit h
    · decide
  · rcases ht with rfl | ⟨e, rfl⟩
    · cases hc
    · unfold exponentText at hc
      rw [List.mem_cons, List.mem_cons] at hc
      rcases hc with rfl | rfl | hc
      · decide
      · split_ifs <;> decide
      · exact hdigit (exponentDigits_mem hc)

theorem readDecimal_formatPositive (p : ℕ) (a : ℚ) :
    (readDecimal (formatPositive p a)).isSome = true := by
  obtain ⟨w, f, hne, hw, hf, t, ht, heq⟩ := formatPositive_cases p a
  have hmark : ∀ c ∈ fraction w f, (!isExponentMark c) = true := by
    intro c hc
    rcases fraction_mem hw hf hc with h | rfl
    · have := toNat_of_isdecimal h
      rw [Bool.not_eq_true', isExponentMark, Bool.or_eq_false_iff, beq_eq_false_iff_ne,
        beq_eq_false_iff_ne]
      constructor
      · rintro rfl
        exact absurd h (by decide)
      · rintro rfl
        exact absurd h (by decide)
    · decide
  have hstop : t.takeWhile (!isExponentMark ·) = [] ∧ t.dropWhile (!isExponentMark ·) = t := by
    rcases ht with rfl | ⟨e, rfl⟩
    · exact ⟨rfl, rfl⟩
    · exact ⟨List.takeWhile_cons_of_neg (by decide), List.dropWhile_cons_of_neg (by decide)⟩
  have hexp : (readExponent t).isSome = true := by
    rcases ht with rfl | ⟨e, rfl⟩
    · rfl
    · exact readExponent_exponentText e
  obtain ⟨m, hm⟩ := Option.isSome_iff_exists.mp (readMantissa_fraction hne hw hf)
  obtain ⟨x, hx⟩ := Option.isSome_iff_exists.mp hexp
  unfold readDecimal
  rw [heq, List.takeWhile_append_of_pos hmark, List.dropWhile_append_of_pos hmark, hstop.1, hstop.2,
    List.append_nil, hm, hx]
  rfl

theorem Double.format_visible {p : ℕ} {x : Double} {c : Char} (hc : c ∈ x.format p) :
    32 < c.toNat ∧ c.toNat < 128 := by
  cases x with
  | finite q =>
      change c ∈ formatG p q at hc
      unfold formatG at hc
      split_ifs at hc
      · rw [List.mem_singleton] at hc
        rw [hc]
        decide
      · rcases List.mem_cons.mp hc with rfl | hc
        · decide
        · exact formatPositive_visible hc
      · exact formatPositive_visible hc
  | infinite negative =>
      have hall : ∀ b : Bool, ∀ c ∈ if b then ['-', 'i', 'n', 'f'] else ['i', 'n', 'f'],
          32 < c.toNat ∧ c.toNat < 128 := by
        intro b
        cases b <;> simp
      exact hall negative c hc
  | nan =>
      have hall : ∀ c ∈ ['n', 'a', 'n'], 32 < c.toNat ∧ c.toNat < 128 := by simp
      exact hall c hc

theorem parseFloat_isSome {nearest : ℚ → Double} {s : List Char}
    (h : (readDecimal (splitSign (strip s)).2).isSome = true) :
    (parseFloat nearest s).isSome = true := by
  unfold parseFloat
  dsimp only
  split
  · rfl
  · split
    · rfl
    · rw [Option.isSome_map]
      exact h

/-- `float` accepts whatever the format prints. -/
theorem parseFloat_format (nearest : ℚ → Double) (p : ℕ) (x : Double) :
    (parseFloat nearest (x.format p)).isSome = true := by
  have hstrip : strip (x.format p) = x.format p := by
    apply strip_of_visible
    intro c hc
    obtain ⟨h1, h2⟩ := Double.format_visible hc
    exact isspace_of_ascii h1 h2
  cases x with
  | infinite negative => cases negative <;> rfl
  | nan => rfl
  | finite q =>
      have hpos : ∀ a, splitSign (formatPositive p a) = (false, formatPositive p a) := by
        intro a
        obtain ⟨w, f, hne, hw, hf, t, -, heq⟩ := formatPositive_cases p a
        obtain ⟨c, w, rfl⟩ := List.exists_cons_of_ne_nil hne
        have hc := hw c List.mem_cons_self
        have hhead : ∃ s, formatPositive p a = c :: s := by
          obtain hfrac | ⟨d, -, -, hfrac⟩ := fraction_cases (w := c :: w) hf
          · exact ⟨w ++ t, by rw [heq, hfrac, List.cons_append]⟩
          · exact ⟨w ++ '.' :: d ++ t, by rw [heq, hfrac, List.cons_append, List.cons_append]⟩
        obtain ⟨s, hs⟩ := hhead
        rw [hs]
        unfold splitSign
        split
        · rename_i he
          rw [(List.cons.inj he).1] at hc
          exact absurd hc (by decide)
        · rename_i he
          rw [(List.cons.inj he).1] at hc
          exact absurd hc (by decide)
        · rfl
      apply parseFloat_isSome
      rw [hstrip]
      change (readDecimal (splitSign (formatG p q)).2).isSome = true
      unfold formatG
      split_ifs
      · decide +kernel
      · exact readDecimal_formatPositive p (-q)
      · rw [hpos]
        exact readDecimal_formatPositive p q

end GeneralFormat
