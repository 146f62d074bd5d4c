import RdSpeTool.CText
import RdSpeTool.Evaluator

/-!
# The user-space operand decoder

`decodeFromAsmOperands` turns the operand text of a disassembled load or store into the template
that `rd_compute_effective_address` evaluates in the kernel. Texts are lists of characters, an
`RdException` is its message.
-/

namespace RdSpeTool

open CText

abbrev Text := List Char

def trimAsciiSpace (s : Text) : Text :=
  ((s.dropWhile isspace).reverse.dropWhile isspace).reverse

theorem trimAsciiSpace_padded {t : Text} (hfirst : ∀ c ∈ t.head?, isspace c = false)
    (hlast : ∀ c ∈ t.getLast?, isspace c = false) (k : ℕ) :
    trimAsciiSpace (List.replicate k ' ' ++ t) = t := by
  have hblank : ∀ c ∈ List.replicate k ' ', isspace c = true := by
    intro c hc
    rw [List.eq_of_mem_replicate hc]
    rfl
  have hfront : t.dropWhile isspace = t := by
    cases t with
    | nil => rfl
    | cons c t => exact List.dropWhile_cons_of_neg (by simp [hfirst c rfl])
  have hback : t.reverse.dropWhile isspace = t.reverse := by
    rw [← List.head?_reverse] at hlast
    cases hrev : t.reverse with
    | nil => rfl
    | cons c s =>
        rw [hrev] at hlast
        exact List.dropWhile_cons_of_neg (by simp [hlast c rfl])
  unfold trimAsciiSpace
  rw [List.dropWhile_append_of_pos hblank, hfront, hback, List.reverse_reverse]

def splitComma (line : Text) : List Text := (getlines ',' [] line).map trimAsciiSpace

def quoting (message : String) (t : Text) : String := message ++ " '" ++ String.ofList t ++ "'"

inductive TemplateExtend
  | none
  | lsl
  | uxtw
  | sxtw
  | uxtx
  | sxtx
  deriving DecidableEq

def TemplateExtend.code : TemplateExtend → ExtendKind
  | none => ExtendKind.none
  | lsl => ExtendKind.lsl
  | uxtw => ExtendKind.uxtw
  | sxtw => ExtendKind.sxtw
  | uxtx => ExtendKind.uxtx
  | sxtx => ExtendKind.sxtx

structure DecodeTemplate where
  accessSize : ℤ
  baseReg : ℤ
  baseIsSp : Bool
  hasImm : Bool
  imm : ℤ
  hasIndex : Bool
  indexReg : ℤ
  indexIs32 : Bool
  indexIsZero : Bool
  extend : TemplateExtend
  shift : U8
  deriving DecidableEq

/-- `(int)strtoll(...)` of the text behind `#`. -/
def parseScaledImm (token : Text) : Except String ℤ :=
  if token = [] then throw "missing immediate"
  else if token.head? ≠ some '#' then throw "expected immediate"
  else pure (BitVec.ofInt 32 (strtol 0 ((cstr token).drop 1)).1).toInt

structure RegName where
  reg : ℤ
  isSp : Bool
  is32 : Bool
  isZero : Bool
  deriving DecidableEq

def parseRegName (token : Text) : Option RegName :=
  let t := trimAsciiSpace token
  if t = ['s', 'p'] then some ⟨perfRegSp, true, false, false⟩
  else if t = ['x', 'z', 'r'] ∨ t = ['w', 'z', 'r'] then
    some ⟨-1, false, t.head? = some 'w', true⟩
  else if t.length ≥ 2 ∧ (t.head? = some 'x' ∨ t.head? = some 'w') then
    let n := strtol 10 ((cstr t).drop 1)
    if n.2 = [] ∧ 0 ≤ n.1 ∧ n.1 ≤ 29 then some ⟨n.1, false, t.head? = some 'w', false⟩
    else if t = ['x', '3', '0'] then some ⟨perfRegLr, false, false, false⟩
    else none
  else none

def parseAccessSizeFromDest (dest : Text) : Except String ℤ :=
  match trimAsciiSpace dest with
  | [] => throw "missing destination operand"
  | 'b' :: _ => pure 1
  | 'h' :: _ => pure 2
  | 'w' :: _ => pure 4
  | 's' :: _ => pure 4
  | 'x' :: _ => pure 8
  | 'd' :: _ => pure 8
  | 'q' :: _ => pure 16
  | t => throw (quoting "unsupported destination register class in operand" t)

def parseExtend (op : Text) : Except String TemplateExtend :=
  if op = ['l', 's', 'l'] then pure .lsl
  else if op = ['u', 'x', 't', 'w'] then pure .uxtw
  else if op = ['s', 'x', 't', 'w'] then pure .sxtw
  else if op = ['u', 'x', 't', 'x'] then pure .uxtx
  else if op = ['s', 'x', 't', 'x'] then pure .sxtx
  else throw (quoting "unsupported index extend" op)

def decodeExtend (dec : DecodeTemplate) (item : Text) : Except String DecodeTemplate := do
  let ext := trimAsciiSpace item
  let space := find ext ' ' 0
  let op := match space with
    | none => ext
    | some n => ext.take n
  let arg := match space with
    | none => []
    | some n => trimAsciiSpace (ext.drop (n + 1))
  let extend ← parseExtend op
  if arg = [] then pure { dec with extend := extend }
  else if arg.head? ≠ some '#' then throw (quoting "unsupported shift argument" arg)
  else
    pure { dec with extend := extend, shift := (strtoul 0 ((cstr arg).drop 1)).setWidth 8 }

def decodeOffset (dec : DecodeTemplate) : List Text → Except String DecodeTemplate
  | [] => pure dec
  | item :: rest =>
      if item.head? = some '#' then do
        let imm ← parseScaledImm item
        pure { dec with hasImm := true, imm := imm }
      else
        match parseRegName item with
        | none => throw (quoting "unsupported index register" item)
        | some r =>
            let dec :=
              { dec with
                  hasIndex := true
                  indexReg := r.reg
                  indexIs32 := r.is32
                  indexIsZero := r.isZero }
            match rest with
            | [] => pure dec
            | ext :: _ => decodeExtend dec ext

def decodeAddress (accessSize : ℤ) : List Text → Except String DecodeTemplate
  | [] => throw "empty address operand"
  | item :: rest =>
      match parseRegName item with
      | none => throw (quoting "unsupported base register" item)
      | some r =>
          if r.isZero then throw (quoting "unsupported base register" item)
          else
            decodeOffset
              { accessSize := accessSize, baseReg := r.reg, baseIsSp := r.isSp, hasImm := false
                imm := 0, hasIndex := false, indexReg := -1, indexIs32 := false
                indexIsZero := false, extend := .none, shift := 0 } rest

/-- The mnemonic is not looked at. -/
def decodeFromAsmOperands (_mnemonic operands : Text) : Except String DecodeTemplate :=
  match find operands ',' 0 with
  | none => throw (quoting "unsupported operand shape" operands)
  | some comma => do
      let accessSize ← parseAccessSizeFromDest (trimAsciiSpace (operands.take comma))
      if accessSize > 8 then throw "watchpoint only supports accesses up to 8 bytes"
      else
        match find operands '[' comma with
        | none => throw (quoting "unsupported address operand" operands)
        | some lb =>
            match find operands ']' lb with
            | none => throw (quoting "unsupported address operand" operands)
            | some rb =>
                if rb ≤ lb then throw (quoting "unsupported address operand" operands)
                else
                  decodeAddress accessSize
                    (splitComma ((operands.drop (lb + 1)).take (rb - lb - 1)))

def toUapiDecode (dec : DecodeTemplate) : Decode where
  accessSize := (BitVec.ofInt 32 dec.accessSize).toNat
  baseReg := dec.baseReg
  baseIsSp := dec.baseIsSp
  hasImm := dec.hasImm
  hasIndex := dec.hasIndex
  indexIs32 := dec.indexIs32
  indexIsZero := dec.indexIsZero
  extend := dec.extend.code
  shift := dec.shift
  indexReg := dec.indexReg
  imm := dec.imm

end RdSpeTool
