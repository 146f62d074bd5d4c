import RdSpeTool.Thread

/-!
# Arithmetic of the hit path

Register reads, the effective-address evaluator, target validation, the logarithmic bucket of a
reuse distance and the xorshift stream that drives slot replacement.
-/

namespace RdSpeTool

def perfRegLr : ℤ := 30
def perfRegSp : ℤ := 31
def perfRegPc : ℤ := 32

def rdReadPerfReg (regs : PtRegs) (perfReg : ℤ) (isSp : Bool) : U64 :=
  if isSp ∨ perfReg = perfRegSp then regs.sp
  else if h : 0 ≤ perfReg ∧ perfReg ≤ 29 then regs.regs ⟨perfReg.toNat, by omega⟩
  else if perfReg = perfRegLr then regs.regs 30
  else if perfReg = perfRegPc then regs.pc
  else 0

def lowWord (raw : U64) : U64 := (raw.setWidth 32).setWidth 64

def indexTerm (dec : Decode) (raw : U64) : U64 :=
  if dec.extend = ExtendKind.none then if dec.indexIs32 then lowWord raw else raw
  else if dec.extend = ExtendKind.lsl then
    (if dec.indexIs32 then lowWord raw else raw) <<< dec.shift.toNat
  else if dec.extend = ExtendKind.uxtw then lowWord raw <<< dec.shift.toNat
  else if dec.extend = ExtendKind.sxtw then
    (raw.setWidth 32).signExtend 64 <<< dec.shift.toNat
  else if dec.extend = ExtendKind.uxtx then raw <<< dec.shift.toNat
  else if dec.extend = ExtendKind.sxtx then raw <<< dec.shift.toNat
  else 0

def rdComputeEffectiveAddress (dec : Decode) (regs : PtRegs) : U64 :=
  let base := rdReadPerfReg regs dec.baseReg dec.baseIsSp
  let addr := if dec.hasImm then base + BitVec.ofInt 64 dec.imm else base
  if dec.hasIndex then
    let raw := if dec.indexIsZero then 0 else rdReadPerfReg regs dec.indexReg false
    addr + indexTerm dec raw
  else addr

def rdValidateTarget (target : Target) : ℤ :=
  let dec := target.decode
  if target.absPc = 0 then -einval
  else if dec.accessSize ≠ 1 ∧ dec.accessSize ≠ 2 ∧ dec.accessSize ≠ 4 ∧ dec.accessSize ≠ 8 then
    -einval
  else if dec.baseReg < 0 ∨ dec.baseReg > perfRegSp then -einval
  else if dec.hasIndex ∧ ¬ dec.indexIsZero ∧ (dec.indexReg < 0 ∨ dec.indexReg > perfRegLr) then
    -einval
  else if dec.extend > ExtendKind.sxtx then -einval
  else 0

/-- `fls64`: one more than the position of the highest set bit. -/
def fls64 (x : U64) : ℕ := if x = 0 then 0 else Nat.log 2 x.toNat + 1

def rdLog2Bucket (delta : U64) : ℕ :=
  if delta = 0 then 0
  else
    let bucket := fls64 delta
    if bucket ≥ log2Buckets then log2Buckets - 1 else bucket

theorem rdLog2Bucket_lt (delta : U64) : rdLog2Bucket delta < log2Buckets := by
  unfold rdLog2Bucket
  split_ifs
  · decide
  · dsimp only
    split_ifs with h
    · decide
    · exact not_le.mp h

/-- The distance `rd_handle_wp_hit` files: accesses strictly between seed and hit. -/
def reuseDelta (seedAccess hitAccess : U64) : U64 :=
  if hitAccess > seedAccess then hitAccess - seedAccess - 1 else 0

theorem reuseDelta_toNat (seed hit : U64) :
    (reuseDelta seed hit).toNat = hit.toNat - seed.toNat - 1 := by
  have h1 := seed.isLt
  have h2 := hit.isLt
  by_cases h : hit > seed
  · simp only [reuseDelta, if_pos h]
    bv_omega
  · simp only [reuseDelta, if_neg h]
    bv_omega

def rngSeed : U64 := 0x9e3779b97f4a7c15

/-- The multiplied output and the next state. -/
def rdNextRandom (state : U64) : U64 × U64 :=
  let x := if state = 0 then rngSeed else state
  let x := x ^^^ (x >>> 12)
  let x := x ^^^ (x <<< 25)
  let x := x ^^^ (x >>> 27)
  (x * 0x2545f4914f6cdd1d, x)

/-- `RD` stream start of a thread: `0x9e37... ^ (u64)(u32)tid`. -/
def initialRng (tid : ℤ) : U64 := rngSeed ^^^ (BitVec.ofInt 32 tid).setWidth 64

end RdSpeTool
