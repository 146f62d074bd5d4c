import Mathlib.Data.List.TakeWhile
import Mathlib.Tactic

/-!
# Text functions of the C and C++ standard libraries

A string is the list of its characters. `strtol` and its relatives are one scanner that returns
sign, magnitude and the unread rest, followed by the conversion to the return type; `long` and
`long long` have 64 bits. The second half reads printed numerals back.
-/

namespace CText

def isspace (c : Char) : Bool := c == ' ' || (9 ≤ c.toNat && c.toNat ≤ 13)

/-- What a `c_str()` pointer shows of a string. -/
def cstr (s : List Char) : List Char := s.takeWhile (· != Char.ofNat 0)

/-- `std::string::find(c, pos)`, with `none` for `npos`. -/
def find (s : List Char) (c : Char) (pos : ℕ) : Option ℕ :=
  ((s.drop pos).findIdx? (· == c)).map (pos + ·)

/-- All strings a loop of `std::getline` reads, with `cur` already read into the first one: a
delimiter ends a string, the end of input ends a nonempty one. -/
def getlines (delim : Char) (cur : List Char) : List Char → List (List Char)
  | [] => if cur = [] then [] else [cur]
  | c :: s => if c = delim then cur :: getlines delim [] s else getlines delim (cur ++ [c]) s

/-- Value of a digit or a letter, 36 for anything else. -/
def digitValue (c : Char) : ℕ :=
  if '0' ≤ c ∧ c ≤ '9' then c.toNat - 48
  else if 'a' ≤ c ∧ c ≤ 'z' then c.toNat - 87
  else if 'A' ≤ c ∧ c ≤ 'Z' then c.toNat - 55
  else 36

def splitSign : List Char → Bool × List Char
  | '-' :: s => (true, s)
  | '+' :: s => (false, s)
  | s => (false, s)

/-- The radix to read in and where its digits start; base 0 looks at the prefix. -/
def splitRadix (base : ℕ) : List Char → ℕ × List Char
  | '0' :: x :: d :: s =>
      if (base = 0 ∨ base = 16) ∧ (x = 'x' ∨ x = 'X') ∧ digitValue d < 16 then (16, d :: s)
      else (if base = 0 then 8 else base, '0' :: x :: d :: s)
  | '0' :: s => (if base = 0 then 8 else base, '0' :: s)
  | s => (if base = 0 then 10 else base, s)

def digitsValue (radix : ℕ) (s : List Char) : ℕ :=
  s.foldl (fun n c => radix * n + digitValue c) 0

structure Scan where
  negative : Bool
  magnitude : ℕ
  rest : List Char

def scan (base : ℕ) (s : List Char) : Scan :=
  let signed := splitSign (s.dropWhile isspace)
  let radix := splitRadix base signed.2
  let digits := radix.2.takeWhile (digitValue · < radix.1)
  if digits = [] then ⟨false, 0, s⟩
  else ⟨signed.1, digitsValue radix.1 digits, radix.2.dropWhile (digitValue · < radix.1)⟩

def Scan.value (r : Scan) : ℤ := if r.negative then -r.magnitude else r.magnitude

/-- `strtol` and `strtoll`: the saturated value and the text at `endptr`. -/
def strtol (base : ℕ) (s : List Char) : ℤ × List Char :=
  (max (-2 ^ 63) (min (2 ^ 63 - 1) (scan base s).value), (scan base s).rest)

/-- `strtoul`; a minus sign negates in the unsigned type. -/
def strtoul (base : ℕ) (s : List Char) : BitVec 64 :=
  if (scan base s).magnitude ≥ 2 ^ 64 then BitVec.allOnes 64
  else BitVec.ofInt 64 (scan base s).value

/-- `strtoull` with the text at `endptr`. -/
def strtoull (base : ℕ) (s : List Char) : BitVec 64 × List Char :=
  (strtoul base s, (scan base s).rest)

/-- `stream >> word`: the next word and the unread rest, `none` if the stream fails. -/
def word (s : List Char) : Option (List Char × List Char) :=
  match s.dropWhile isspace with
  | [] => none
  | t => some (t.takeWhile (!isspace ·), t.dropWhile (!isspace ·))

/-! ## Searching and splitting -/

theorem findIdx?_eq_none {c : Char} {s : List Char} (h : c ∉ s) : s.findIdx? (· == c) = none := by
  rw [List.findIdx?_eq_none_iff]
  intro x hx
  have hne : x ≠ c := fun he => h (he ▸ hx)
  simpa using hne

theorem find_eq_none {c : Char} {s : List Char} (h : c ∉ s) : find s c 0 = none := by
  unfold find
  rw [List.drop_zero, findIdx?_eq_none h, Option.map_none]

theorem find_append {c : Char} {mid : List Char} (h : c ∉ mid) (pre post : List Char) :
    find (pre ++ (mid ++ c :: post)) c pre.length = some (pre.length + mid.length) := by
  unfold find
  rw [List.drop_left]
  have hidx : (mid ++ c :: post).findIdx? (· == c) = some mid.length := by
    rw [List.findIdx?_append, findIdx?_eq_none h]
    simp [List.findIdx?_cons]
  rw [hidx, Option.map_some]

theorem getlines_delim {delim : Char} {s : List Char} (h : delim ∉ s) (cur rest : List Char) :
    getlines delim cur (s ++ delim :: rest) = (cur ++ s) :: getlines delim [] rest := by
  induction s generalizing cur with
  | nil => simp [getlines]
  | cons c s ih =>
      rw [List.mem_cons, not_or] at h
      rw [List.cons_append, getlines, if_neg (Ne.symm h.1), ih h.2]
      simp

theorem getlines_last {delim : Char} {s : List Char} (h : delim ∉ s) {cur : List Char}
    (hne : cur ++ s ≠ []) : getlines delim cur s = [cur ++ s] := by
  induction s generalizing cur with
  | nil =>
      rw [List.append_nil] at hne ⊢
      rw [getlines, if_neg hne]
  | cons c s ih =>
      rw [List.mem_cons, not_or] at h
      rw [getlines, if_neg (Ne.symm h.1), ih h.2 (by simp)]
      simp

/-- Lines that were written are the lines that are read. -/
theorem getlines_flatMap {α : Type*} {delim : Char} {f : α → List Char} {l : List α}
    (h : ∀ x ∈ l, delim ∉ f x) : getlines delim [] (l.flatMap fun x => f x ++ [delim]) = l.map f := by
  induction l with
  | nil => rfl
  | cons x l ih =>
      rw [List.forall_mem_cons] at h
      rw [List.flatMap_cons, List.append_assoc, List.singleton_append, getlines_delim h.1, ih h.2,
        List.nil_append, List.map_cons]

theorem mem_intercalate {sep c : Char} {fs : List (List Char)} (h : c ∈ [sep].intercalate fs) :
    c = sep ∨ ∃ f ∈ fs, c ∈ f := by
  induction fs with
  | nil => cases h
  | cons a fs ih =>
      cases fs with
      | nil =>
          rw [List.intercalate_singleton] at h
          exact .inr ⟨a, List.mem_cons_self, h⟩
      | cons b fs =>
          rw [List.intercalate_cons_cons, List.mem_append, List.mem_append, List.mem_singleton] at h
          rcases h with (h | h) | h
          · exact .inr ⟨a, List.mem_cons_self, h⟩
          · exact .inl h
          · rcases ih h with h | ⟨f, hf, hc⟩
            · exact .inl h
            · exact .inr ⟨f, List.mem_cons_of_mem _ hf, hc⟩

/-- Fields that were joined are the fields that `getline` finds, if the last one is not empty. -/
theorem getlines_intercalate {sep : Char} {fs : List (List Char)} (h : ∀ f ∈ fs, sep ∉ f)
    (hlast : ∀ f ∈ fs.getLast?, f ≠ []) : getlines sep [] ([sep].intercalate fs) = fs := by
  induction fs with
  | nil => rfl
  | cons a fs ih =>
      rw [List.forall_mem_cons] at h
      cases fs with
      | nil =>
          rw [List.intercalate_singleton, getlines_last h.1]
          · rfl
          · exact hlast a rfl
      | cons b fs =>
          rw [List.intercalate_cons_cons, List.append_assoc, List.singleton_append,
            getlines_delim h.1, ih h.2 hlast, List.nil_append]

def IsWord (w : List Char) : Prop := w ≠ [] ∧ ∀ c ∈ w, isspace c = false

theorem word_append {w rest : List Char} {c : Char} (h : IsWord w) (hc : isspace c = true) :
    word (w ++ c :: rest) = some (w, c :: rest) := by
  obtain ⟨hne, hw⟩ := h
  obtain ⟨a, w, rfl⟩ := List.exists_cons_of_ne_nil hne
  have ha : isspace a = false := hw a List.mem_cons_self
  have hdrop : ((a :: w) ++ c :: rest).dropWhile isspace = (a :: w) ++ c :: rest :=
    List.dropWhile_cons_of_neg (by simp [ha])
  have hall : ∀ x ∈ a :: w, (!isspace x) = true := by
    intro x hx
    rw [hw x hx]
    rfl
  unfold word
  rw [hdrop]
  change some ((((a :: w) ++ c :: rest).takeWhile fun x => !isspace x), _) = _
  rw [List.takeWhile_append_of_pos hall, List.dropWhile_append_of_pos hall,
    List.takeWhile_cons_of_neg (by simp [hc]), List.dropWhile_cons_of_neg (by simp [hc]),
    List.append_nil]

theorem word_space (s : List Char) : word (' ' :: s) = word s := rfl

/-! ## Numerals -/

theorem digitValue_digitChar {d : ℕ} (h : d < 16) : digitValue (Nat.digitChar d) = d := by
  interval_cases d <;> decide

theorem digitValue_lt_of_mem {radix n : ℕ} (h1 : 1 < radix) (h16 : radix ≤ 16) {c : Char}
    (hc : c ∈ Nat.toDigits radix n) : digitValue c < radix := by
  induction n using Nat.base_induction radix h1 with
  | single m hm =>
      rw [Nat.toDigits_of_lt_base hm, List.mem_singleton] at hc
      rw [hc, digitValue_digitChar (by omega)]
      exact hm
  | digit m d hd hm ih =>
      rw [← Nat.toDigits_append_toDigits h1 hm hd, Nat.toDigits_of_lt_base hd,
        List.mem_append, List.mem_singleton] at hc
      rcases hc with hc | rfl
      · exact ih hc
      · rw [digitValue_digitChar (by omega)]
        exact hd

theorem digitsValue_toDigits {radix : ℕ} (h1 : 1 < radix) (h16 : radix ≤ 16) (n : ℕ) :
    digitsValue radix (Nat.toDigits radix n) = n := by
  unfold digitsValue
  induction n using Nat.base_induction radix h1 with
  | single m hm =>
      rw [Nat.toDigits_of_lt_base hm]
      simp [digitValue_digitChar (show m < 16 by omega)]
  | digit m d hd hm ih =>
      rw [← Nat.toDigits_append_toDigits h1 hm hd, List.foldl_append, ih,
        Nat.toDigits_of_lt_base hd]
      simp [digitValue_digitChar (show d < 16 by omega)]

theorem digitValue_of_lt {c : Char} (h : c.toNat < 48) : digitValue c = 36 := by
  have h0 : ¬ '0' ≤ c := by
    rw [Char.le_def, UInt32.le_iff_toNat_le]
    exact not_le.mpr h
  have ha : ¬ 'a' ≤ c := by
    rw [Char.le_def, UInt32.le_iff_toNat_le]
    exact not_le.mpr (h.trans (by decide))
  have hA : ¬ 'A' ≤ c := by
    rw [Char.le_def, UInt32.le_iff_toNat_le]
    exact not_le.mpr (h.trans (by decide))
  simp [digitValue, h0, ha, hA]

theorem isspace_eq_false {c : Char} (h : digitValue c < 36) : isspace c = false := by
  by_contra hs
  have hlt : c.toNat < 48 := by
    simp only [isspace, Bool.not_eq_false, Bool.or_eq_true, beq_iff_eq, Bool.and_eq_true,
      decide_eq_true_eq] at hs
    rcases hs with rfl | ⟨-, hs⟩
    · decide
    · omega
  rw [digitValue_of_lt hlt] at h
  omega

theorem splitRadix_of_ne_zero {base : ℕ} (h0 : base ≠ 0) (h16 : base ≠ 16) (s : List Char) :
    splitRadix base s = (base, s) := by
  unfold splitRadix
  split
  · simp [h0, h16]
  · simp [h0]
  · simp [h0]

/-- The digits of a positive number do not start with zero. -/
theorem toDigits_eq_cons {radix n : ℕ} (h1 : 1 < radix) (h16 : radix ≤ 16) (hn : 0 < n) :
    ∃ c s, Nat.toDigits radix n = c :: s ∧ c ≠ '0' := by
  induction n using Nat.base_induction radix h1 with
  | single m hm =>
      refine ⟨Nat.digitChar m, [], Nat.toDigits_of_lt_base hm, ?_⟩
      intro he
      have hv := congrArg digitValue he
      rw [digitValue_digitChar (by omega)] at hv
      change m = 0 at hv
      omega
  | digit m d hd hm ih =>
      obtain ⟨c, s, hs, hc⟩ := ih hm
      refine ⟨c, s ++ Nat.toDigits radix d, ?_, hc⟩
      rw [← Nat.toDigits_append_toDigits h1 hm hd, hs, List.cons_append]

/-- A number as the disassembler prints it. -/
def numeral (hex : Bool) (n : ℕ) : List Char :=
  if hex then '0' :: 'x' :: Nat.toDigits 16 n else Nat.toDigits 10 n

def integer (hex : Bool) (i : ℤ) : List Char :=
  if i < 0 then '-' :: numeral hex i.natAbs else numeral hex i.natAbs

theorem numeral_digits (hex : Bool) (n : ℕ) : ∀ c ∈ numeral hex n, digitValue c < 36 := by
  intro c hc
  cases hex with
  | false => exact (digitValue_lt_of_mem (by decide) (by decide) hc).trans (by decide)
  | true =>
      change c ∈ '0' :: 'x' :: Nat.toDigits 16 n at hc
      rw [List.mem_cons, List.mem_cons] at hc
      rcases hc with rfl | rfl | hc
      · decide
      · decide
      · exact (digitValue_lt_of_mem (by decide) (by decide) hc).trans (by decide)

/-- Base 0 finds the radix of a printed number. -/
theorem splitRadix_numeral (hex : Bool) (n : ℕ) : ∃ radix, 1 < radix ∧ radix ≤ 16 ∧
    splitRadix 0 (numeral hex n) = (radix, Nat.toDigits radix n) := by
  cases hex with
  | true =>
      refine ⟨16, by decide, by decide, ?_⟩
      cases hd : Nat.toDigits 16 n with
      | nil => exact absurd hd Nat.toDigits_ne_nil
      | cons d s =>
          have hlt : digitValue d < 16 :=
            digitValue_lt_of_mem (n := n) (by decide) (by decide) (by rw [hd]; exact List.mem_cons_self)
          simp [numeral, hd, splitRadix, hlt]
  | false =>
      rcases Nat.eq_zero_or_pos n with rfl | hn
      · exact ⟨8, by decide, by decide, rfl⟩
      · obtain ⟨c, s, hs, hc⟩ : ∃ c s, Nat.toDigits 10 n = c :: s ∧ c ≠ '0' :=
          toDigits_eq_cons (by decide) (by decide) hn
        refine ⟨10, by decide, by decide, ?_⟩
        change splitRadix 0 (Nat.toDigits 10 n) = _
        rw [hs]
        unfold splitRadix
        split
        · rename_i he
          exact absurd (List.cons.inj he).1 hc
        · rename_i he
          exact absurd (List.cons.inj he).1 hc
        · rfl

theorem scan_of_digits {base radix n : ℕ} (h1 : 1 < radix) (h16 : radix ≤ 16) (neg : Bool)
    {s body : List Char} (hspace : s.dropWhile isspace = s) (hsign : splitSign s = (neg, body))
    (hradix : splitRadix base body = (radix, Nat.toDigits radix n)) :
    scan base s = ⟨neg, n, []⟩ := by
  have hall : ∀ c ∈ Nat.toDigits radix n, decide (digitValue c < radix) = true := by
    intro c hc
    simpa using digitValue_lt_of_mem h1 h16 hc
  have htake : (Nat.toDigits radix n).takeWhile (digitValue · < radix) = Nat.toDigits radix n :=
    List.takeWhile_eq_self_iff.mpr hall
  have hdrop : (Nat.toDigits radix n).dropWhile (digitValue · < radix) = [] :=
    List.dropWhile_eq_nil_iff.mpr hall
  simp only [scan, hspace, hsign, hradix, htake, hdrop, if_neg Nat.toDigits_ne_nil,
    digitsValue_toDigits h1 h16]

theorem toDigits_head {radix : ℕ} (h1 : 1 < radix) (h16 : radix ≤ 16) (n : ℕ) :
    ∃ c s, Nat.toDigits radix n = c :: s ∧ digitValue c < 16 := by
  cases hd : Nat.toDigits radix n with
  | nil => exact absurd hd Nat.toDigits_ne_nil
  | cons c s =>
      have hmem : c ∈ Nat.toDigits radix n := by
        rw [hd]
        exact List.mem_cons_self
      exact ⟨c, s, rfl, (digitValue_lt_of_mem h1 h16 hmem).trans_le h16⟩

theorem numeral_head (hex : Bool) (n : ℕ) : ∃ c s, numeral hex n = c :: s ∧ digitValue c < 16 := by
  cases hex with
  | true => exact ⟨'0', 'x' :: Nat.toDigits 16 n, rfl, by decide⟩
  | false => exact toDigits_head (by decide) (by decide) n

/-- A text that starts with a digit has no blank and no sign to skip. -/
theorem splitSign_of_digit {c : Char} (h : digitValue c < 16) (s : List Char) :
    (c :: s).dropWhile isspace = c :: s ∧ splitSign (c :: s) = (false, c :: s) := by
  have hspace := isspace_eq_false (h.trans (by decide))
  refine ⟨List.dropWhile_cons_of_neg (by simp [hspace]), ?_⟩
  unfold splitSign
  split
  · rename_i he
    rw [(List.cons.inj he).1] at h
    exact absurd h (by decide)
  · rename_i he
    rw [(List.cons.inj he).1] at h
    exact absurd h (by decide)
  · rfl

theorem scan_integer (hex : Bool) (i : ℤ) :
    scan 0 (integer hex i) = ⟨decide (i < 0), i.natAbs, []⟩ := by
  obtain ⟨radix, h1, h16, hradix⟩ := splitRadix_numeral hex i.natAbs
  unfold integer
  by_cases hneg : i < 0
  · rw [if_pos hneg, decide_eq_true hneg]
    exact scan_of_digits h1 h16 true (List.dropWhile_cons_of_neg (by decide)) rfl hradix
  · rw [if_neg hneg, decide_eq_false hneg]
    obtain ⟨c, s, hs, hc⟩ := numeral_head hex i.natAbs
    have hsign := splitSign_of_digit hc s
    rw [← hs] at hsign
    exact scan_of_digits h1 h16 false hsign.1 hsign.2 hradix

theorem strtol_integer (hex : Bool) {i : ℤ} (hlo : -2 ^ 63 ≤ i) (hhi : i < 2 ^ 63) :
    strtol 0 (integer hex i) = (i, []) := by
  have hvalue : (scan 0 (integer hex i)).value = i := by
    rw [scan_integer]
    unfold Scan.value
    dsimp only
    by_cases hneg : i < 0
    · rw [decide_eq_true hneg, if_pos rfl]
      omega
    · rw [decide_eq_false hneg, if_neg Bool.false_ne_true]
      omega
  unfold strtol
  rw [hvalue, scan_integer, min_eq_right (by omega), max_eq_right hlo]

theorem scan_toDigits (n : ℕ) : scan 10 (Nat.toDigits 10 n) = ⟨false, n, []⟩ := by
  obtain ⟨c, s, hs, hc⟩ := toDigits_head (by decide : 1 < 10) (by decide) n
  have hsign := splitSign_of_digit hc s
  rw [← hs] at hsign
  exact scan_of_digits (by decide) (by decide) false hsign.1 hsign.2
    (splitRadix_of_ne_zero (by decide) (by decide) _)

theorem strtol_toDigits {n : ℕ} (h : n < 2 ^ 63) : strtol 10 (Nat.toDigits 10 n) = ((n : ℤ), []) := by
  unfold strtol
  rw [scan_toDigits]
  change (max (-2 ^ 63) (min (2 ^ 63 - 1) (n : ℤ)), ([] : List Char)) = _
  rw [min_eq_right (by omega), max_eq_right (by omega)]

theorem strtoul_toDigits {n : ℕ} (h : n < 2 ^ 64) :
    strtoul 10 (Nat.toDigits 10 n) = BitVec.ofNat 64 n := by
  unfold strtoul
  rw [scan_toDigits, if_neg (by simpa using h)]
  exact BitVec.ofInt_natCast 64 n

theorem strtoul_numeral (hex : Bool) {n : ℕ} (h : n < 2 ^ 64) :
    strtoul 0 (numeral hex n) = BitVec.ofNat 64 n := by
  have hscan : scan 0 (numeral hex n) = ⟨false, n, []⟩ := scan_integer hex n
  unfold strtoul
  rw [hscan, if_neg (by simpa using h)]
  exact BitVec.ofInt_natCast 64 n

/-- Hexadecimal digits are read up to the first character that is none. -/
theorem scan_hex {ds tail : List Char} (hne : ds ≠ []) (hds : ∀ c ∈ ds, digitValue c < 16)
    (htail : ∀ c ∈ tail.head?, 16 ≤ digitValue c ∧ c ≠ 'x' ∧ c ≠ 'X') :
    scan 16 (ds ++ tail) = ⟨false, digitsValue 16 ds, tail⟩ := by
  obtain ⟨a, ds, rfl⟩ := List.exists_cons_of_ne_nil hne
  obtain ⟨hspace, hsign⟩ := splitSign_of_digit (hds a List.mem_cons_self) (ds ++ tail)
  have hx : ∀ x, digitValue x < 16 → x ≠ 'x' ∧ x ≠ 'X' := by
    intro x hx
    constructor <;> rintro rfl <;> revert hx <;> decide
  have hradix : splitRadix 16 (a :: (ds ++ tail)) = (16, a :: (ds ++ tail)) := by
    have hnext : ∀ x s, ds ++ tail = x :: s → x ≠ 'x' ∧ x ≠ 'X' := by
      intro x s hxs
      cases ds with
      | nil =>
          cases tail with
          | nil => cases hxs
          | cons c tail =>
              cases hxs
              exact (htail _ rfl).2
      | cons b ds =>
          obtain ⟨rfl, -⟩ := List.cons.inj hxs
          exact hx b (hds b (by simp))
    unfold splitRadix
    split
    · rename_i y d s he
      obtain ⟨hy, hY⟩ := hnext y (d :: s) (List.cons.inj he).2
      rw [he]
      simp [hy, hY]
    · rename_i he
      rw [he]
      rfl
    · rfl
  have hall : ∀ c ∈ a :: ds, decide (digitValue c < 16) = true := by
    intro c hc
    simpa using hds c hc
  have hstop : tail.takeWhile (digitValue · < 16) = [] ∧ tail.dropWhile (digitValue · < 16) = tail := by
    cases tail with
    | nil => exact ⟨rfl, rfl⟩
    | cons c tail =>
        have hc : ¬ digitValue c < 16 := not_lt.mpr (htail c rfl).1
        exact ⟨List.takeWhile_cons_of_neg (by simp [hc]), List.dropWhile_cons_of_neg (by simp [hc])⟩
  have htake : (a :: (ds ++ tail)).takeWhile (digitValue · < 16) = a :: ds := by
    rw [← List.cons_append, List.takeWhile_append_of_pos hall, hstop.1, List.append_nil]
  have hdrop : (a :: (ds ++ tail)).dropWhile (digitValue · < 16) = tail := by
    rw [← List.cons_append, List.dropWhile_append_of_pos hall, hstop.2]
  rw [List.cons_append]
  simp only [scan, hspace, hsign, hradix, htake, hdrop, reduceCtorEq, if_false]

theorem strtoull_hex {ds tail : List Char} (hne : ds ≠ []) (hds : ∀ c ∈ ds, digitValue c < 16)
    (htail : ∀ c ∈ tail.head?, 16 ≤ digitValue c ∧ c ≠ 'x' ∧ c ≠ 'X') {v : BitVec 64}
    (hv : digitsValue 16 ds = v.toNat) : strtoull 16 (ds ++ tail) = (v, tail) := by
  have hlt := v.isLt
  unfold strtoull strtoul
  rw [scan_hex hne hds htail, hv]
  dsimp only [Scan.value]
  rw [if_neg (by omega)]
  simp

theorem digitsValue_replicate_zero (radix k : ℕ) (ds : List Char) :
    digitsValue radix (List.replicate k '0' ++ ds) = digitsValue radix ds := by
  unfold digitsValue
  rw [List.foldl_append]
  congr 1
  induction k with
  | zero => rfl
  | succ k ih => exact ih

end CText
