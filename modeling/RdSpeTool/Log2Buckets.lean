import Mathlib.Data.Nat.Size
import RdSpeTool.IntervalChain
import RdSpeTool.ResultFiles

/-!
# Logarithmic buckets

The kernel files a distance under the number of its bits, clamped to the last bucket; the result
files print each bucket as an interval. The two agree on every 64-bit distance.
-/

namespace RdSpeTool

/-! ## The printed intervals -/

theorem bucketLo_succ (k : ℕ) : bucketLo (k + 1) = 2 ^ k := by
  cases k with
  | zero => rfl
  | succ k =>
      rw [bucketLo_add_two, pow_succ]
      omega

theorem bucketLo_le_iff (b n : ℕ) : bucketLo b ≤ n ↔ b ≤ Nat.size n := by
  cases b with
  | zero => simp [bucketLo]
  | succ k =>
      rw [bucketLo_succ, ← Nat.lt_size]
      omega

theorem bucketHi_add_one {b : ℕ} (hb : b < 63) : bucketHi b + 1 = 2 ^ b := by
  have hpos := Nat.two_pow_pos b
  unfold bucketHi
  split_ifs with h0 h1 h63
  · simp [h0]
  · simp [h1]
  · omega
  · omega

theorem le_bucketHi_iff {b : ℕ} (hb : b < 63) (n : ℕ) : n ≤ bucketHi b ↔ Nat.size n ≤ b := by
  have h := bucketHi_add_one hb
  rw [Nat.size_le]
  omega

theorem bucketHi_last {b : ℕ} (hb : 63 ≤ b) : bucketHi b = 2 ^ 64 - 1 := by
  unfold bucketHi
  rw [if_neg (by omega), if_neg (by omega), if_pos hb]

theorem bucketLo_mono {b c : ℕ} (h : b ≤ c) : bucketLo b ≤ bucketLo c := by
  rw [bucketLo_le_iff]
  exact h.trans ((bucketLo_le_iff c _).mp le_rfl)

/-- A bucket ends right before the next one starts. -/
theorem bucketHi_lt_bucketLo {b c : ℕ} (h : b < c) (hc : c ≤ 63) : bucketHi b < bucketLo c := by
  have hnext := bucketHi_add_one (b := b) (by omega)
  have hmono := bucketLo_mono (show b + 1 ≤ c by omega)
  rw [bucketLo_succ] at hmono
  omega

theorem bucketLo_le_bucketHi {b : ℕ} (hb : b ≤ 63) : bucketLo b ≤ bucketHi b := by
  by_cases h : b = 63
  · rw [h]
    decide
  · have hnext := bucketHi_add_one (b := b) (by omega)
    have hlo : bucketLo b < 2 ^ b := by
      cases b with
      | zero => decide
      | succ k =>
          rw [bucketLo_succ]
          exact Nat.pow_lt_pow_right (by omega) (by omega)
    omega

theorem bucketHi_lt {b : ℕ} (hb : b ≤ 63) : bucketHi b < 2 ^ 64 := by
  by_cases h : b = 63
  · rw [h]
    decide
  · have hnext := bucketHi_add_one (b := b) (by omega)
    have hpow : 2 ^ b ≤ 2 ^ 64 := Nat.pow_le_pow_right (by omega) (by omega)
    omega

/-! ## The kernel's bucket -/

theorem fls64_eq_size (x : U64) : fls64 x = Nat.size x.toNat := by
  unfold fls64
  split_ifs with hx
  · rw [hx]
    rfl
  · have hne : x.toNat ≠ 0 := fun h => hx (BitVec.eq_of_toNat_eq h)
    apply le_antisymm
    · exact Nat.lt_size.mpr (Nat.pow_log_le_self 2 hne)
    · exact Nat.size_le.mpr (Nat.lt_pow_succ_log_self (by omega) _)

theorem rdLog2Bucket_eq (delta : U64) : rdLog2Bucket delta = min (Nat.size delta.toNat) 63 := by
  unfold rdLog2Bucket
  split_ifs with h0
  · rw [h0]
    rfl
  · rw [fls64_eq_size]
    change (if Nat.size delta.toNat ≥ 64 then 63 else Nat.size delta.toNat) = _
    split_ifs <;> omega

theorem rdLog2Bucket_le (delta : U64) : rdLog2Bucket delta ≤ 63 := by
  rw [rdLog2Bucket_eq]
  exact min_le_right _ _

theorem rdLog2Bucket_mono {d e : U64} (h : d ≤ e) : rdLog2Bucket d ≤ rdLog2Bucket e := by
  rw [rdLog2Bucket_eq, rdLog2Bucket_eq]
  exact min_le_min_right 63 (Nat.size_le_size h)

/-- The last bucket is the clamped one. -/
theorem rdLog2Bucket_lt_last (delta : U64) : rdLog2Bucket delta < 63 ↔ delta.toNat < 2 ^ 62 := by
  rw [rdLog2Bucket_eq, ← Nat.size_le]
  omega

theorem mem_interval_rdLog2Bucket (delta : U64) :
    bucketLo (rdLog2Bucket delta) ≤ delta.toNat ∧ delta.toNat ≤ bucketHi (rdLog2Bucket delta) := by
  constructor
  · rw [bucketLo_le_iff, rdLog2Bucket_eq]
    exact min_le_left _ _
  · rcases (rdLog2Bucket_le delta).lt_or_eq with hlt | hlast
    · rw [le_bucketHi_iff hlt]
      rw [rdLog2Bucket_eq] at hlt ⊢
      omega
    · rw [hlast, bucketHi_last le_rfl]
      have := delta.isLt
      omega

/-- For every pair of counter readings the filed distance is the exact one, its bucket is one of
the table's and the printed interval of the bucket contains it. The printed intervals partition
the 64-bit range in order, and the bucket grows with the distance. -/
theorem log2_buckets_agree :
    (∀ seed hit : U64,
      ((reuseDelta seed hit).toNat : ℤ) =
        (if seed < hit then (hit.toNat : ℤ) - seed.toNat - 1 else 0) ∧
      rdLog2Bucket (reuseDelta seed hit) < log2Buckets ∧
      bucketLo (rdLog2Bucket (reuseDelta seed hit)) ≤ (reuseDelta seed hit).toNat ∧
      (reuseDelta seed hit).toNat ≤ bucketHi (rdLog2Bucket (reuseDelta seed hit))) ∧
    (∀ b < log2Buckets, bucketLo b ≤ bucketHi b ∧ bucketHi b < 2 ^ 64) ∧
    (∀ b c, b < c → c < log2Buckets → bucketHi b < bucketLo c) ∧
    (∀ n < 2 ^ 64, ∃ b < log2Buckets, bucketLo b ≤ n ∧ n ≤ bucketHi b) ∧
    ∀ d e : U64, d ≤ e → rdLog2Bucket d ≤ rdLog2Bucket e := by
  have hbuckets : log2Buckets = 63 + 1 := rfl
  refine ⟨?_, ?_, ?_, ?_, fun d e h => rdLog2Bucket_mono h⟩
  · intro seed hit
    refine ⟨?_, rdLog2Bucket_lt _, mem_interval_rdLog2Bucket _⟩
    rw [reuseDelta_toNat]
    have hlt : seed < hit ↔ seed.toNat < hit.toNat := BitVec.lt_def
    split_ifs with h
    · rw [hlt] at h
      omega
    · rw [hlt] at h
      omega
  · intro b hb
    exact ⟨bucketLo_le_bucketHi (by omega), bucketHi_lt (by omega)⟩
  · intro b c hbc hc
    exact bucketHi_lt_bucketLo hbc (by omega)
  · intro n hn
    have hval : (BitVec.ofNat 64 n).toNat = n := by
      rw [BitVec.toNat_ofNat]
      exact Nat.mod_eq_of_lt hn
    have hmem := mem_interval_rdLog2Bucket (BitVec.ofNat 64 n)
    rw [hval] at hmem
    exact ⟨_, rdLog2Bucket_lt _, hmem⟩

end RdSpeTool
