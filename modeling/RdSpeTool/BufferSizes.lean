import RdSpeTool.WhileLoop

/-!
# Buffer sizes

`RD_BUFSIZE` and `RD_AUXBUFSIZE` are rounded down to a power of two by doubling an `int`, and turned
into pages by a product in `int`. Both can leave the 32 bits.
-/

namespace RdSpeTool

open WhileLoop

/-- The value an `int` keeps of a result. -/
def wrapInt (x : ℤ) : ℤ := x.bmod (2 ^ 32)

def shiftRound (n : ℤ) : ℤ := wrapInt (n * 2)

/-- `parse_bufsize` on the value of `atoi`, if its loop has ended within so many rounds. -/
def parseBufsize (rounds : ℕ) (bufsize : ℤ) : Option ℤ :=
  if bufsize ≠ 0 then
    (runFor (fun n => decide (n ≤ bufsize)) shiftRound rounds 1).map fun n : ℤ => n >>> (1 : ℕ)
  else some 1

/-- The pages of a buffer of so many MiB. The product is an `int`, the page size a `long`, and the
quotient is stored in an `int`. -/
def bufferPages (bufsize pageSize : ℤ) : ℤ :=
  wrapInt ((wrapInt (bufsize * (1024 * 1024))).tdiv pageSize)

/-- `parse_bufsize` ends and returns `size`. -/
def ParsesTo (value size : ℤ) : Prop := ∃ rounds, parseBufsize rounds value = some size

def IsRounded (value size : ℤ) : Prop :=
  IsGreatest {x | (∃ k : ℕ, x = 2 ^ k) ∧ x ≤ max value 1} size

/-! ## The loop -/

theorem wrapInt_of_mem {x : ℤ} (h : -2 ^ 31 ≤ x ∧ x < 2 ^ 31) : wrapInt x = x :=
  Int.bmod_eq_of_le (by omega) (by omega)

theorem wrapInt_mem (x : ℤ) : -2 ^ 31 ≤ wrapInt x ∧ wrapInt x < 2 ^ 31 := by
  have hle := Int.le_bmod (x := x) (m := 2 ^ 32) (by decide)
  have hlt := Int.bmod_lt (x := x) (m := 2 ^ 32) (by decide)
  unfold wrapInt
  constructor
  · omega
  · omega

theorem shiftRound_iterate {k : ℕ} (hk : k ≤ 30) : shiftRound^[k] 1 = 2 ^ k := by
  induction k with
  | zero => rfl
  | succ k ih =>
      have hpow : (2 : ℤ) ^ (k + 1) ≤ 2 ^ 30 := pow_le_pow_right₀ (by decide) hk
      have hpos : (0 : ℤ) < 2 ^ (k + 1) := by positivity
      rw [Function.iterate_succ_apply', ih (by omega), shiftRound, ← pow_succ]
      exact wrapInt_of_mem (by omega)

/-- From the thirty-second round on the counter is zero. -/
theorem shiftRound_iterate_of_lt {k : ℕ} (hk : 31 < k) : shiftRound^[k] 1 = 0 := by
  obtain ⟨j, rfl⟩ : ∃ j, k = j + 32 := ⟨k - 32, by omega⟩
  rw [Function.iterate_add_apply]
  have hzero : shiftRound^[32] 1 = 0 := by
    rw [Function.iterate_succ_apply', Function.iterate_succ_apply', shiftRound_iterate le_rfl]
    decide
  rw [hzero]
  exact Function.iterate_fixed (by decide) j

theorem shiftRound_iterate_le {k : ℕ} : shiftRound^[k] 1 ≤ 2 ^ 30 := by
  by_cases hsmall : k ≤ 30
  · rw [shiftRound_iterate hsmall]
    exact pow_le_pow_right₀ (by decide) hsmall
  by_cases hlarge : 31 < k
  · rw [shiftRound_iterate_of_lt hlarge]
    decide
  obtain rfl : k = 31 := by omega
  rw [Function.iterate_succ_apply', shiftRound_iterate le_rfl]
  decide

/-- Below `2 ^ 30` the loop ends one power of two above the value. -/
theorem parsesTo_pow {value : ℤ} {k : ℕ} (hk : k < 30) (hlo : 2 ^ k ≤ value)
    (hhi : value < 2 ^ (k + 1)) : ParsesTo value (2 ^ k) := by
  have hpos : (0 : ℤ) < 2 ^ k := by positivity
  refine ⟨k + 1, ?_⟩
  have hloop : runFor (fun n => decide (n ≤ value)) shiftRound (k + 1) 1 =
      some (shiftRound^[k + 1] 1) := by
    apply runFor_eq_iterate
    · intro j hj
      rw [shiftRound_iterate (by omega), decide_eq_true_eq]
      exact (pow_le_pow_right₀ (by decide) (by omega)).trans hlo
    · rw [shiftRound_iterate (by omega), decide_eq_false_iff_not]
      omega
  unfold parseBufsize
  rw [if_pos (by omega), hloop, shiftRound_iterate (by omega), Option.map_some,
    Int.shiftRight_eq_div_pow, pow_succ]
  simp

theorem parsesTo_zero : ParsesTo 0 1 := ⟨0, rfl⟩

/-- A negative value ends the loop before its first round, and the shift leaves nothing. -/
theorem parsesTo_of_neg {value size : ℤ} (hneg : value < 0) (h : ParsesTo value size) :
    size = 0 := by
  obtain ⟨rounds, hparse⟩ := h
  unfold parseBufsize at hparse
  rw [if_pos (by omega), runFor_of_not_test (by simp; omega)] at hparse
  cases hparse
  rfl

/-- From `2 ^ 30` on the counter never exceeds the value. -/
theorem not_parsesTo_of_le {value size : ℤ} (hlarge : 2 ^ 30 ≤ value) : ¬ ParsesTo value size := by
  rintro ⟨rounds, hparse⟩
  unfold parseBufsize at hparse
  rw [if_pos (by omega)] at hparse
  obtain ⟨n, hrun, -⟩ := Option.map_eq_some_iff.mp hparse
  refine not_endsIn (fun k => ?_) ⟨rounds, hrun⟩
  rw [decide_eq_true_eq]
  exact shiftRound_iterate_le.trans hlarge

/-! ## The rounded size -/

theorem isRounded_pow {value : ℤ} {k : ℕ} (hlo : 2 ^ k ≤ max value 1)
    (hhi : max value 1 < 2 ^ (k + 1)) : IsRounded value (2 ^ k) := by
  refine ⟨⟨⟨k, rfl⟩, hlo⟩, ?_⟩
  rintro x ⟨⟨j, rfl⟩, hx⟩
  have hlt : (2 : ℤ) ^ j < 2 ^ (k + 1) := hx.trans_lt hhi
  have hjk : j < k + 1 := (pow_lt_pow_iff_right₀ (by decide)).mp hlt
  exact pow_le_pow_right₀ (by decide) (Nat.lt_succ_iff.mp hjk)

theorem exists_pow_le (value : ℤ) : ∃ k : ℕ, 2 ^ k ≤ max value 1 ∧ max value 1 < 2 ^ (k + 1) := by
  have hone : (1 : ℤ) ≤ max value 1 := le_max_right _ _
  obtain ⟨n, hn⟩ : ∃ n : ℕ, max value 1 = n := Int.eq_ofNat_of_zero_le (by omega)
  have hne : n ≠ 0 := by omega
  refine ⟨Nat.log 2 n, ?_, ?_⟩
  · rw [hn]
    exact_mod_cast Nat.pow_log_le_self 2 hne
  · rw [hn]
    exact_mod_cast Nat.lt_pow_succ_log_self (by decide) n

theorem IsRounded.exists_pow {value size : ℤ} {n : ℕ} (h : IsRounded value size)
    (hle : 2 ^ n ≤ max value 1) : ∃ k, n ≤ k ∧ size = 2 ^ k := by
  obtain ⟨⟨⟨k, rfl⟩, -⟩, hmax⟩ := h
  have hpow : (2 : ℤ) ^ n ≤ 2 ^ k := hmax ⟨⟨n, rfl⟩, hle⟩
  exact ⟨k, (pow_le_pow_iff_right₀ (by decide)).mp hpow, rfl⟩

/-! ## The pages -/

/-- A product that fits is divided exactly. -/
theorem bufferPages_pow {k p : ℕ} (hk : k < 11) (hp : p ≤ 20) :
    bufferPages (2 ^ k) (2 ^ p) = 2 ^ (k + 20 - p) := by
  have hmul : (2 : ℤ) ^ k * (1024 * 1024) = 2 ^ (k + 20) := by
    rw [pow_add]
    norm_num
  have hbound : ∀ j ≤ 30, (0 : ℤ) < 2 ^ j ∧ (2 : ℤ) ^ j ≤ 2 ^ 30 := by
    intro j hj
    exact ⟨by positivity, pow_le_pow_right₀ (by decide) hj⟩
  have hproduct := hbound (k + 20) (by omega)
  have hquotient := hbound (k + 20 - p) (by omega)
  have hsplit : (2 : ℤ) ^ (k + 20) = 2 ^ (k + 20 - p) * 2 ^ p := by
    rw [← pow_add]
    congr 1
    omega
  have hfits : wrapInt (2 ^ (k + 20)) = 2 ^ (k + 20) := wrapInt_of_mem (by omega)
  unfold bufferPages
  rw [hmul, hfits, hsplit, Int.mul_tdiv_cancel _ (by positivity)]
  exact wrapInt_of_mem (by omega)

/-- From 2 GiB on the product is `-2 ^ 31` or nothing. -/
theorem wrapInt_pow_nonpos {k : ℕ} (hk : 31 ≤ k) : wrapInt (2 ^ k) ≤ 0 := by
  obtain ⟨j, rfl⟩ : ∃ j, k = 31 + j := ⟨k - 31, by omega⟩
  cases j with
  | zero => decide
  | succ j =>
      have hzero : wrapInt (2 ^ (31 + (j + 1))) = 0 := by
        have hdvd : (2 : ℤ) ^ (31 + (j + 1)) = 2 ^ 32 * 2 ^ j := by
          rw [← pow_add]
          congr 1
          omega
        rw [wrapInt, hdvd]
        exact Int.mul_bmod_right _ _
      exact hzero.le

theorem bufferPages_nonpos {k : ℕ} (hk : 11 ≤ k) {pageSize : ℤ} (hpage : 0 < pageSize) :
    bufferPages (2 ^ k) pageSize ≤ 0 := by
  have hmul : (2 : ℤ) ^ k * (1024 * 1024) = 2 ^ (k + 20) := by
    rw [pow_add]
    norm_num
  have hproduct := wrapInt_pow_nonpos (k := k + 20) (by omega)
  have hmem := wrapInt_mem (2 ^ (k + 20))
  unfold bufferPages
  rw [hmul]
  generalize wrapInt (2 ^ (k + 20)) = product at *
  have hquotient : product.tdiv pageSize ≤ 0 := by
    have := Int.tdiv_nonneg (a := -product) (b := pageSize) (by omega) hpage.le
    rw [Int.neg_tdiv] at this
    omega
  have hlow : product ≤ product.tdiv pageSize := by
    have := Int.tdiv_le_self (a := -product) pageSize (by omega)
    rw [Int.neg_tdiv] at this
    omega
  rw [wrapInt_of_mem (by omega)]
  exact hquotient

end RdSpeTool
