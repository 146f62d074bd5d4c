import Mathlib.Tactic

/-!
# Files of fixed-size records

Little-endian numbers of a given width, and byte strings made of records of one size: what is
written record after record is read back record by record.
-/

namespace ByteRecords

abbrev Byte := BitVec 8

/-- The `n` low bytes of a number, lowest first. -/
def leBytes : ℕ → ℕ → List Byte
  | 0, _ => []
  | n + 1, v => BitVec.ofNat 8 v :: leBytes n (v / 256)

def leValue (bytes : List Byte) : ℕ := bytes.foldr (fun b acc => b.toNat + 256 * acc) 0

@[simp] theorem length_leBytes (n v : ℕ) : (leBytes n v).length = n := by
  induction n generalizing v with
  | zero => rfl
  | succ n ih => rw [leBytes, List.length_cons, ih]

theorem leValue_leBytes {n v : ℕ} (h : v < 256 ^ n) : leValue (leBytes n v) = v := by
  induction n generalizing v with
  | zero =>
      rw [pow_zero] at h
      change 0 = v
      omega
  | succ n ih =>
      have hv : v / 256 < 256 ^ n := by
        apply Nat.div_lt_of_lt_mul
        rwa [pow_succ, mul_comm] at h
      change (BitVec.ofNat 8 v).toNat + 256 * leValue (leBytes n (v / 256)) = v
      rw [ih hv, BitVec.toNat_ofNat]
      omega

section Records

variable {α β : Type*} {size : ℕ} {enc : α → List β} {l : List α}

def records (size : ℕ) (data : List β) : List (List β) :=
  (List.range (data.length / size)).map fun i => (data.drop (i * size)).take size

theorem length_flatMap (henc : ∀ x ∈ l, (enc x).length = size) :
    (l.flatMap enc).length = l.length * size := by
  induction l with
  | nil => simp
  | cons x l ih =>
      rw [List.forall_mem_cons] at henc
      rw [List.flatMap_cons, List.length_append, henc.1, ih henc.2, List.length_cons, Nat.succ_mul,
        Nat.add_comm]

theorem drop_flatMap (henc : ∀ x ∈ l, (enc x).length = size) (i : ℕ) :
    (l.flatMap enc).drop (i * size) = (l.drop i).flatMap enc := by
  induction i generalizing l with
  | zero => simp
  | succ i ih =>
      cases l with
      | nil => simp
      | cons x l =>
          rw [List.forall_mem_cons] at henc
          rw [List.flatMap_cons, List.drop_succ_cons, ← ih henc.2, Nat.succ_mul, Nat.add_comm,
            ← List.drop_drop, List.drop_left' henc.1]

/-- Reading gives back the records that were written. -/
theorem records_flatMap (henc : ∀ x ∈ l, (enc x).length = size) (hsize : 0 < size) :
    records size (l.flatMap enc) = l.map enc := by
  unfold records
  rw [length_flatMap henc, Nat.mul_div_cancel _ hsize]
  apply List.ext_getElem
  · simp
  · intro i hi hi'
    have hil : i < l.length := by simpa using hi'
    rw [List.getElem_map, List.getElem_map, List.getElem_range, drop_flatMap henc,
      List.drop_eq_getElem_cons hil, List.flatMap_cons, List.take_left' (henc _ (List.getElem_mem hil))]

end Records

section Fields

variable {β : Type*}

/-- Cuts a record into fields of the given sizes. -/
def splitFields : List ℕ → List β → List (List β)
  | [], _ => []
  | n :: sizes, data => data.take n :: splitFields sizes (data.drop n)

/-- The fields of a record are the pieces it was put together from. -/
theorem splitFields_flatten (fields : List (List β)) :
    splitFields (fields.map List.length) fields.flatten = fields := by
  induction fields with
  | nil => rfl
  | cons field fields ih =>
      rw [List.map_cons, List.flatten_cons, splitFields, List.take_left, List.drop_left, ih]

end Fields

end ByteRecords
