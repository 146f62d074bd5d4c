import RdSpeTool.OperandDecoder

/-!
# Agreement of the decoder and the kernel evaluator

`Operand` is a scalar `ldr`, `str`, `ldur` or `stur` operand. It has a text, as `objdump` prints it,
and an architectural effective address, an integer to be taken modulo `2 ^ 64`. The decoder accepts
every such text, and the kernel computes the architectural address from what the decoder made.
-/

namespace RdSpeTool

open CText

/-- What varies between disassemblers: blanks behind a comma, radix of immediates. -/
structure Format where
  gap : ℕ
  hex : Bool

inductive FpClass
  | b
  | h
  | s
  | d

inductive Dest
  | fp (cls : FpClass) (n : Fin 32)
  | gpr (is64 : Bool) (n : Fin 31)
  | zr (is64 : Bool)

inductive Base
  | x (n : Fin 31)
  | sp

inductive IndexReg : Bool → Type
  | x (n : Fin 31) : IndexReg true
  | w (n : Fin 30) : IndexReg false
  | zr (is64 : Bool) : IndexReg is64

inductive IndexExtend : Bool → Type
  | lsl : IndexExtend true
  | sxtx : IndexExtend true
  | uxtx : IndexExtend true
  | uxtw : IndexExtend false
  | sxtw : IndexExtend false

/-- An immediate in the range of the load and store encodings: the unscaled ones reach down to
-256, the scaled ones up to 4095 doublewords. -/
structure Offset where
  val : ℤ
  lower : -256 ≤ val
  upper : val ≤ 32760

inductive Address
  | plain
  | offset (imm : Offset)
  | preIndex (imm : Offset)
  | postIndex (imm : Offset)
  | index (m : IndexReg true)
  | extended {is64 : Bool} (m : IndexReg is64) (e : IndexExtend is64) (amount : Option (Fin 5))

structure Operand where
  dest : Dest
  base : Base
  address : Address

/-! ## Text -/

def FpClass.letter : FpClass → Char
  | b => 'b'
  | h => 'h'
  | s => 's'
  | d => 'd'

def gprLetter (is64 : Bool) : Char := if is64 then 'x' else 'w'

def Dest.text : Dest → Text
  | fp cls n => cls.letter :: Nat.toDigits 10 n
  | gpr is64 n => gprLetter is64 :: Nat.toDigits 10 n
  | zr is64 => [gprLetter is64, 'z', 'r']

def Base.text : Base → Text
  | x n => 'x' :: Nat.toDigits 10 n
  | sp => ['s', 'p']

def IndexReg.text {is64 : Bool} : IndexReg is64 → Text
  | x n => 'x' :: Nat.toDigits 10 n
  | w n => 'w' :: Nat.toDigits 10 n
  | zr is64 => [gprLetter is64, 'z', 'r']

def IndexExtend.text {is64 : Bool} : IndexExtend is64 → Text
  | lsl => ['l', 's', 'l']
  | sxtx => ['s', 'x', 't', 'x']
  | uxtx => ['u', 'x', 't', 'x']
  | uxtw => ['u', 'x', 't', 'w']
  | sxtw => ['s', 'x', 't', 'w']

def amountText : Option (Fin 5) → Text
  | none => []
  | some s => ' ' :: '#' :: numeral false s

def Offset.text (f : Format) (imm : Offset) : Text := '#' :: integer f.hex imm.val

def Address.items (f : Format) : Address → List Text
  | plain | postIndex _ => []
  | offset imm | preIndex imm => [imm.text f]
  | index m => [m.text]
  | extended m e amount => [m.text, e.text ++ amountText amount]

def comma (f : Format) (t : Text) : Text := ',' :: (List.replicate f.gap ' ' ++ t)

def Address.suffix (f : Format) : Address → Text
  | preIndex _ => ['!']
  | postIndex imm => comma f (imm.text f)
  | _ => []

def joinItems (f : Format) (first : Text) (rest : List Text) : Text :=
  first ++ (rest.map (comma f)).flatten

def Operand.text (f : Format) (op : Operand) : Text :=
  op.dest.text ++ comma f ('[' :: (joinItems f op.base.text (op.address.items f) ++
    ']' :: op.address.suffix f))

/-! ## Meaning -/

def Dest.width : Dest → ℕ
  | fp .b _ => 1
  | fp .h _ => 2
  | fp .s _ => 4
  | fp .d _ => 8
  | gpr is64 _ | zr is64 => if is64 then 8 else 4

def Base.value (regs : PtRegs) : Base → U64
  | x n => regs.regs n
  | sp => regs.sp

def gprWidth : Bool → ℕ
  | true => 64
  | false => 32

/-- A `w` register is the low half of its `x` register. -/
def IndexReg.value (regs : PtRegs) {is64 : Bool} : IndexReg is64 → BitVec (gprWidth is64)
  | x n => regs.regs n
  | w n => (regs.regs n.castSucc).setWidth 32
  | zr _ => 0

def IndexExtend.extend {is64 : Bool} (v : BitVec (gprWidth is64)) : IndexExtend is64 → ℤ
  | lsl | uxtx | uxtw => v.toNat
  | sxtx | sxtw => v.toInt

def scale (amount : Option (Fin 5)) : ℤ := 2 ^ (amount.elim 0 Fin.val)

/-- The offset an address adds to its base before the access; a post-index adds it afterwards. -/
def Address.displacement (regs : PtRegs) : Address → ℤ
  | plain | postIndex _ => 0
  | offset imm | preIndex imm => imm.val
  | index m => (m.value regs).toNat
  | extended m e amount => e.extend (m.value regs) * scale amount

/-- The architectural effective address, before reduction modulo `2 ^ 64`. -/
def Operand.effectiveAddress (regs : PtRegs) (op : Operand) : ℤ :=
  (op.base.value regs).toNat + op.address.displacement regs

/-! ## Texts are split back into their items -/

/-- A nonempty item without comma or bracket, with no blank at its ends. -/
structure Clean (t : Text) : Prop where
  plain : ∀ c ∈ t, c ≠ ',' ∧ c ≠ ']'
  head : ∃ c s, t = c :: s ∧ isspace c = false
  last : ∃ s c, t = s ++ [c] ∧ isspace c = false

theorem trimAsciiSpace_blanks {t : Text} (h : Clean t) (k : ℕ) :
    trimAsciiSpace (List.replicate k ' ' ++ t) = t := by
  obtain ⟨c, s, hs, hc⟩ := h.head
  obtain ⟨s', c', hs', hc'⟩ := h.last
  apply trimAsciiSpace_padded
  · simp [hs, hc]
  · simp [hs', hc']

theorem trimAsciiSpace_clean {t : Text} (h : Clean t) : trimAsciiSpace t = t :=
  trimAsciiSpace_blanks h 0

theorem Clean.comma_notMem {t : Text} (h : Clean t) : ',' ∉ t := fun hm => (h.plain ',' hm).1 rfl

theorem Clean.ne_nil {t : Text} (h : Clean t) : t ≠ [] := by
  obtain ⟨c, s, rfl, -⟩ := h.head
  exact List.cons_ne_nil c s

theorem splitComma_joinItems (f : Format) (k : ℕ) {first : Text} (hfirst : Clean first)
    {rest : List Text} (hrest : ∀ t ∈ rest, Clean t) :
    splitComma (List.replicate k ' ' ++ joinItems f first rest) = first :: rest := by
  have hcomma : ',' ∉ List.replicate k ' ' ++ first := by
    simp [hfirst.comma_notMem]
  induction rest generalizing first k with
  | nil =>
      unfold joinItems splitComma
      rw [List.map_nil, List.flatten_nil, List.append_nil,
        getlines_last hcomma (by simp [hfirst.ne_nil])]
      simp [trimAsciiSpace_blanks hfirst]
  | cons t rest ih =>
      have ht := hrest t List.mem_cons_self
      have hsplit : List.replicate k ' ' ++ joinItems f first (t :: rest) =
          (List.replicate k ' ' ++ first) ++ ',' :: (List.replicate f.gap ' ' ++
            joinItems f t rest) := by
        simp [joinItems, comma]
      unfold splitComma at ih ⊢
      rw [hsplit, getlines_delim hcomma, List.map_cons, List.nil_append,
        trimAsciiSpace_blanks hfirst,
        ih f.gap ht (fun t' ht' => hrest t' (List.mem_cons_of_mem t ht'))
          (by simp [ht.comma_notMem])]

/-! ## Items are clean -/

def isWord (c : Char) : Bool := digitValue c < 36 || c == '#' || c == '-'

theorem isWord_of_digitValue {c : Char} (h : digitValue c < 36) : isWord c = true := by
  simp [isWord, h]

theorem isspace_of_isWord {c : Char} (h : isWord c = true) : isspace c = false := by
  simp only [isWord, Bool.or_eq_true, decide_eq_true_eq, beq_iff_eq] at h
  rcases h with (h | rfl) | rfl
  · exact isspace_eq_false h
  · rfl
  · rfl

theorem Clean.of_word {c : Char} {s : Text} (h : ∀ x ∈ c :: s, isWord x = true) :
    Clean (c :: s) := by
  refine ⟨fun x hx => ?_, ⟨c, s, rfl, isspace_of_isWord (h c List.mem_cons_self)⟩, ?_⟩
  · have hw := h x hx
    constructor
    · rintro rfl
      exact absurd hw (by decide)
    · rintro rfl
      exact absurd hw (by decide)
  · obtain ⟨s', c', he⟩ := (List.eq_nil_or_concat' (c :: s)).resolve_left (List.cons_ne_nil c s)
    exact ⟨s', c', he, isspace_of_isWord (h c' (by rw [he]; simp))⟩

theorem Clean.blank {a b : Text} (ha : Clean a) (hb : Clean b) : Clean (a ++ ' ' :: b) := by
  refine ⟨fun c hc => ?_, ?_, ?_⟩
  · rw [List.mem_append, List.mem_cons] at hc
    rcases hc with hc | rfl | hc
    · exact ha.plain c hc
    · decide
    · exact hb.plain c hc
  · obtain ⟨c, s, rfl, hc⟩ := ha.head
    exact ⟨c, s ++ ' ' :: b, rfl, hc⟩
  · obtain ⟨s, c, rfl, hc⟩ := hb.last
    exact ⟨a ++ ' ' :: s, c, by simp, hc⟩

theorem isWord_numeral (hex : Bool) (n : ℕ) : ∀ c ∈ numeral hex n, isWord c = true :=
  fun c hc => isWord_of_digitValue (numeral_digits hex n c hc)

theorem isWord_integer (hex : Bool) (i : ℤ) : ∀ c ∈ integer hex i, isWord c = true := by
  intro c hc
  unfold integer at hc
  split_ifs at hc with hneg
  · rcases List.mem_cons.mp hc with rfl | hc
    · decide
    · exact isWord_numeral hex _ c hc
  · exact isWord_numeral hex _ c hc

/-- A letter and a register number. -/
theorem isWord_register {letter : Char} (h : isWord letter = true) (n : ℕ) :
    ∀ c ∈ letter :: Nat.toDigits 10 n, isWord c = true := by
  intro c hc
  rcases List.mem_cons.mp hc with rfl | hc
  · exact h
  · exact isWord_numeral false n c hc

theorem Base.clean (b : Base) : Clean b.text := by
  cases b with
  | x n => exact Clean.of_word (isWord_register (by decide) n)
  | sp => exact Clean.of_word (List.all_eq_true.mp rfl)

theorem IndexReg.clean {is64 : Bool} (m : IndexReg is64) : Clean m.text := by
  cases m with
  | x n => exact Clean.of_word (isWord_register (by decide) n)
  | w n => exact Clean.of_word (isWord_register (by decide) n)
  | zr is64 => exact Clean.of_word (List.all_eq_true.mp (by cases is64 <;> rfl))

theorem IndexExtend.clean {is64 : Bool} (e : IndexExtend is64) : Clean e.text := by
  cases e <;> exact Clean.of_word (List.all_eq_true.mp rfl)

theorem Offset.isWord_text (f : Format) (imm : Offset) : ∀ c ∈ imm.text f, isWord c = true := by
  intro c hc
  rcases List.mem_cons.mp hc with rfl | hc
  · decide
  · exact isWord_integer f.hex imm.val c hc

theorem isWord_amount (s : Fin 5) : ∀ c ∈ '#' :: numeral false s, isWord c = true := by
  intro c hc
  rcases List.mem_cons.mp hc with rfl | hc
  · decide
  · exact isWord_numeral false s c hc

theorem clean_amountText {e : Text} (he : Clean e) (amount : Option (Fin 5)) :
    Clean (e ++ amountText amount) := by
  cases amount with
  | none => rwa [amountText, List.append_nil]
  | some s =>
      exact he.blank (Clean.of_word (isWord_amount s))

theorem Address.clean (f : Format) (a : Address) : ∀ t ∈ a.items f, Clean t := by
  cases a with
  | plain | postIndex => exact nofun
  | offset imm | preIndex imm =>
      intro t ht
      rw [List.mem_singleton.mp ht]
      exact Clean.of_word (imm.isWord_text f)
  | index m =>
      intro t ht
      rw [List.mem_singleton.mp ht]
      exact m.clean
  | extended m e amount =>
      intro t ht
      rcases List.mem_cons.mp ht with rfl | ht
      · exact m.clean
      · rw [List.mem_singleton.mp ht]
        exact clean_amountText e.clean amount

/-! ## Items are decoded -/

theorem cstr_of_word {t : Text} (h : ∀ c ∈ t, isWord c = true) : cstr t = t := by
  refine List.takeWhile_eq_self_iff.mpr fun c hc => ?_
  have hw := h c hc
  simp only [bne_iff_ne]
  rintro rfl
  exact absurd hw (by decide)

/-- Registers 0 to 29 of either width. -/
theorem parseRegName_numbered (is64 : Bool) {n : ℕ} (hn : n ≤ 29) :
    parseRegName (gprLetter is64 :: Nat.toDigits 10 n) = some ⟨n, false, !is64, false⟩ := by
  have hword : ∀ c ∈ gprLetter is64 :: Nat.toDigits 10 n, isWord c = true :=
    isWord_register (by cases is64 <;> decide) n
  have hz : ∀ s : Text, Nat.toDigits 10 n ≠ 'z' :: s := by
    intro s he
    have hmem : 'z' ∈ Nat.toDigits 10 n := by
      rw [he]
      exact List.mem_cons_self
    have hlt : digitValue 'z' < 10 := digitValue_lt_of_mem (by decide) (by decide) hmem
    exact absurd hlt (by decide)
  have hpos : 0 < (Nat.toDigits 10 n).length := Nat.length_toDigits_pos
  have hletter : gprLetter is64 ≠ 's' := by cases is64 <;> decide
  have hshape : (gprLetter is64 :: Nat.toDigits 10 n).length ≥ 2 ∧
      ((gprLetter is64 :: Nat.toDigits 10 n).head? = some 'x' ∨
        (gprLetter is64 :: Nat.toDigits 10 n).head? = some 'w') := by
    refine ⟨Nat.succ_le_succ hpos, ?_⟩
    cases is64 <;> simp [gprLetter]
  unfold parseRegName
  rw [trimAsciiSpace_clean (Clean.of_word hword)]
  dsimp only
  rw [cstr_of_word hword, List.drop_succ_cons, List.drop_zero, strtol_toDigits (by omega),
    if_neg (by simp [hletter]), if_neg (by simp [hz]), if_pos hshape,
    if_pos ⟨rfl, by omega, by omega⟩]
  cases is64 <;> rfl

def Base.reg : Base → ℤ
  | x n => n
  | sp => perfRegSp

def Base.isSp : Base → Bool
  | x _ => false
  | sp => true

def IndexReg.reg {is64 : Bool} : IndexReg is64 → ℤ
  | x n => n
  | w n => n
  | zr _ => -1

def IndexReg.isZero {is64 : Bool} : IndexReg is64 → Bool
  | x _ => false
  | w _ => false
  | zr _ => true

/-- Register 30 goes by its own name. -/
theorem parseRegName_x (n : Fin 31) :
    parseRegName ('x' :: Nat.toDigits 10 n) = some ⟨n, false, false, false⟩ := by
  by_cases hn : n.val ≤ 29
  · exact parseRegName_numbered true hn
  · have h30 : n.val = 30 := by omega
    rw [h30]
    decide

theorem Base.parse (b : Base) : parseRegName b.text = some ⟨b.reg, b.isSp, false, false⟩ := by
  cases b with
  | x n => exact parseRegName_x n
  | sp => decide

theorem IndexReg.parse {is64 : Bool} (m : IndexReg is64) :
    parseRegName m.text = some ⟨m.reg, false, !is64, m.isZero⟩ := by
  cases m with
  | x n => exact parseRegName_x n
  | w n => exact parseRegName_numbered false (by omega)
  | zr is64 => cases is64 <;> decide

theorem Offset.parse (f : Format) (imm : Offset) : parseScaledImm (imm.text f) = pure imm.val := by
  have hlo := imm.lower
  have hhi := imm.upper
  have hint : (BitVec.ofInt 32 imm.val).toInt = imm.val := by
    rw [BitVec.toInt_ofInt]
    exact Int.bmod_eq_of_le (by omega) (by omega)
  unfold parseScaledImm
  rw [if_neg (by simp [Offset.text]), if_neg (by simp [Offset.text]),
    cstr_of_word (imm.isWord_text f)]
  change pure (BitVec.ofInt 32 (strtol 0 (integer f.hex imm.val)).1).toInt = _
  rw [strtol_integer f.hex (by omega) (by omega), hint]

def IndexExtend.template {is64 : Bool} : IndexExtend is64 → TemplateExtend
  | lsl => .lsl
  | sxtx => .sxtx
  | uxtx => .uxtx
  | uxtw => .uxtw
  | sxtw => .sxtw

def amountShift (amount : Option (Fin 5)) : U8 := BitVec.ofNat 8 (amount.elim 0 Fin.val)

namespace DecodeTemplate

variable (dec : DecodeTemplate)

def withIndex (reg : ℤ) (is32 isZero : Bool) : DecodeTemplate :=
  { dec with hasIndex := true, indexReg := reg, indexIs32 := is32, indexIsZero := isZero }

def withExtend (e : TemplateExtend) (amount : Option (Fin 5)) : DecodeTemplate :=
  { dec with extend := e, shift := amountShift amount }

end DecodeTemplate

def Address.template (dec : DecodeTemplate) : Address → DecodeTemplate
  | plain | postIndex _ => dec
  | offset imm | preIndex imm => { dec with hasImm := true, imm := imm.val }
  | index m => dec.withIndex m.reg false m.isZero
  | @extended is64 m e amount =>
      (dec.withIndex m.reg (!is64) m.isZero).withExtend e.template amount

theorem decodeExtend_text (dec : DecodeTemplate) (hshift : dec.shift = 0) {e : Text}
    (hclean : Clean e) (hspace : ' ' ∉ e) {x : TemplateExtend} (hparse : parseExtend e = pure x)
    (amount : Option (Fin 5)) :
    decodeExtend dec (e ++ amountText amount) = pure (dec.withExtend x amount) := by
  unfold decodeExtend
  rw [trimAsciiSpace_clean (clean_amountText hclean amount)]
  cases amount with
  | none =>
      rw [amountText, List.append_nil]
      simp only [find_eq_none hspace, hparse, pure_bind, if_true]
      rw [hshift]
      rfl
  | some s =>
      have hfind : find (e ++ ' ' :: '#' :: numeral false s) ' ' 0 = some e.length := by
        simpa using find_append hspace [] ('#' :: numeral false s)
      have hword := isWord_amount s
      have hdrop : (e ++ ' ' :: '#' :: numeral false s).drop (e.length + 1) =
          '#' :: numeral false s := by
        rw [← List.drop_drop, List.drop_left]
        rfl
      have hvalue : (strtoul 0 (numeral false s)).setWidth 8 = amountShift (some s) := by
        rw [strtoul_numeral false (by omega)]
        exact BitVec.setWidth_ofNat_of_le (by decide) _
      simp only [amountText, hfind, List.take_left, hparse, pure_bind, hdrop,
        trimAsciiSpace_clean (Clean.of_word hword), cstr_of_word hword, List.cons_ne_nil, if_false,
        List.head?_cons, ne_eq, not_true_eq_false, List.drop_succ_cons, List.drop_zero, hvalue]
      rfl

theorem decodeOffset_register (dec : DecodeTemplate) {item : Text} (h : item.head? ≠ some '#')
    {r : RegName} (hr : parseRegName item = some r) (rest : List Text) :
    decodeOffset dec (item :: rest) =
      match rest with
      | [] => pure (dec.withIndex r.reg r.is32 r.isZero)
      | ext :: _ => decodeExtend (dec.withIndex r.reg r.is32 r.isZero) ext := by
  rw [decodeOffset, if_neg h, hr]
  rfl

theorem IndexReg.head_ne {is64 : Bool} (m : IndexReg is64) : m.text.head? ≠ some '#' := by
  cases m with
  | x n => simp [IndexReg.text]
  | w n => simp [IndexReg.text]
  | zr is64 => cases is64 <;> simp [IndexReg.text, gprLetter]

theorem IndexExtend.parse {is64 : Bool} (e : IndexExtend is64) :
    ' ' ∉ e.text ∧ parseExtend e.text = pure e.template := by
  cases e <;> exact ⟨by decide, rfl⟩

theorem decodeOffset_items (f : Format) {dec : DecodeTemplate} (hshift : dec.shift = 0)
    (a : Address) : decodeOffset dec (a.items f) = pure (a.template dec) := by
  cases a with
  | plain | postIndex => rfl
  | offset imm | preIndex imm =>
      change decodeOffset dec [imm.text f] = _
      rw [decodeOffset, if_pos (by simp [Offset.text]), imm.parse f]
      rfl
  | index m => exact decodeOffset_register dec m.head_ne m.parse []
  | extended m e amount =>
      obtain ⟨hspace, hparse⟩ := e.parse
      refine Eq.trans (decodeOffset_register dec m.head_ne m.parse [e.text ++ amountText amount]) ?_
      exact decodeExtend_text (dec.withIndex m.reg _ m.isZero) hshift e.clean hspace hparse amount

theorem Dest.clean (d : Dest) : Clean d.text := by
  cases d with
  | fp cls n => exact Clean.of_word (isWord_register (by cases cls <;> decide) n)
  | gpr is64 n => exact Clean.of_word (isWord_register (by cases is64 <;> decide) n)
  | zr is64 => exact Clean.of_word (List.all_eq_true.mp (by cases is64 <;> rfl))

theorem Dest.parse (d : Dest) : parseAccessSizeFromDest d.text = pure (d.width : ℤ) := by
  unfold parseAccessSizeFromDest
  rw [trimAsciiSpace_clean d.clean]
  cases d with
  | fp cls n => cases cls <;> rfl
  | gpr is64 n => cases is64 <;> rfl
  | zr is64 => cases is64 <;> rfl

theorem Dest.width_eq (d : Dest) : d.width = 1 ∨ d.width = 2 ∨ d.width = 4 ∨ d.width = 8 := by
  cases d with
  | fp cls n => cases cls <;> simp [Dest.width]
  | gpr is64 n => cases is64 <;> simp [Dest.width]
  | zr is64 => cases is64 <;> simp [Dest.width]

theorem bracket_notMem_joinItems (f : Format) {first : Text} (hfirst : Clean first)
    {rest : List Text} (hrest : ∀ t ∈ rest, Clean t) : ']' ∉ joinItems f first rest := by
  unfold joinItems
  rw [List.mem_append, not_or]
  refine ⟨fun h => (hfirst.plain _ h).2 rfl, ?_⟩
  intro h
  obtain ⟨t, ht, hmem⟩ := List.mem_flatten.mp h
  obtain ⟨t', ht', rfl⟩ := List.mem_map.mp ht
  rw [comma, List.mem_cons, List.mem_append] at hmem
  rcases hmem with hc | hc | hc
  · exact absurd hc (by decide)
  · exact absurd (List.eq_of_mem_replicate hc) (by decide)
  · exact ((hrest t' ht').plain _ hc).2 rfl

/-- The decoder cuts an operand at its comma and its brackets. -/
theorem decodeFromAsmOperands_brackets (mnemonic : Text) (f : Format) {d inner : Text} {size : ℤ}
    (hd : Clean d) (hsize : parseAccessSizeFromDest d = pure size) (hle : size ≤ 8)
    (hinner : ']' ∉ inner) (suffix : Text) :
    decodeFromAsmOperands mnemonic (d ++ comma f ('[' :: (inner ++ ']' :: suffix))) =
      decodeAddress size (splitComma inner) := by
  have hcomma : find (d ++ comma f ('[' :: (inner ++ ']' :: suffix))) ',' 0 = some d.length := by
    have h := find_append hd.comma_notMem [] (List.replicate f.gap ' ' ++ '[' :: (inner ++
      ']' :: suffix))
    simpa [comma] using h
  have hlb : find (d ++ comma f ('[' :: (inner ++ ']' :: suffix))) '[' d.length =
      some (d.length + (f.gap + 1)) := by
    have hmid : '[' ∉ ',' :: List.replicate f.gap ' ' := by simp
    have h := find_append hmid d (inner ++ ']' :: suffix)
    simpa [comma] using h
  have hrb : find (d ++ comma f ('[' :: (inner ++ ']' :: suffix))) ']' (d.length + (f.gap + 1)) =
      some (d.length + (f.gap + 1) + (inner.length + 1)) := by
    have hmid : ']' ∉ '[' :: inner := by simp [hinner]
    have h := find_append hmid (d ++ ',' :: List.replicate f.gap ' ') suffix
    simpa [comma] using h
  have hcut : ((d ++ comma f ('[' :: (inner ++ ']' :: suffix))).drop
      (d.length + (f.gap + 1) + 1)).take inner.length = inner := by
    have hdrop : (d ++ comma f ('[' :: (inner ++ ']' :: suffix))) =
        (d ++ ',' :: (List.replicate f.gap ' ' ++ ['['])) ++ (inner ++ ']' :: suffix) := by
      simp [comma]
    have hlen : d.length + (f.gap + 1) + 1 =
        (d ++ ',' :: (List.replicate f.gap ' ' ++ ['['])).length := by
      simp
      omega
    rw [hdrop, hlen, List.drop_left, List.take_left]
  have hwidth : d.length + (f.gap + 1) + (inner.length + 1) - (d.length + (f.gap + 1)) - 1 =
      inner.length := by omega
  unfold decodeFromAsmOperands
  rw [hcomma]
  dsimp only
  rw [List.take_left, trimAsciiSpace_clean hd, hsize, pure_bind, if_neg (by omega), hlb]
  dsimp only
  rw [hrb]
  dsimp only
  rw [if_neg (by omega), hwidth, hcut]

def Operand.template (op : Operand) : DecodeTemplate :=
  op.address.template
    { accessSize := op.dest.width, baseReg := op.base.reg, baseIsSp := op.base.isSp
      hasImm := false, imm := 0, hasIndex := false, indexReg := -1, indexIs32 := false
      indexIsZero := false, extend := .none, shift := 0 }

/-- Every printed operand is decoded. -/
theorem decodeFromAsmOperands_text (mnemonic : Text) (f : Format) (op : Operand) :
    decodeFromAsmOperands mnemonic (op.text f) = pure op.template := by
  have hitems := op.address.clean f
  have hwidth : (op.dest.width : ℤ) ≤ 8 := by
    have h := op.dest.width_eq
    omega
  have hsplit : splitComma (joinItems f op.base.text (op.address.items f)) =
      op.base.text :: op.address.items f := splitComma_joinItems f 0 op.base.clean hitems
  unfold Operand.text
  rw [decodeFromAsmOperands_brackets mnemonic f op.dest.clean op.dest.parse hwidth
    (bracket_notMem_joinItems f op.base.clean hitems), hsplit, decodeAddress, op.base.parse]
  exact decodeOffset_items f rfl op.address

/-! ## The kernel evaluates templates -/

theorem shiftLeft_ofInt (v : ℤ) (s : ℕ) :
    BitVec.ofInt 64 v <<< s = BitVec.ofInt 64 (v * 2 ^ s) := by
  have hpow : BitVec.ofInt 64 (2 ^ s) = BitVec.twoPow 64 s := by
    have hcast : (2 : ℤ) ^ s = ((2 ^ s : ℕ) : ℤ) := by push_cast; rfl
    apply BitVec.eq_of_toNat_eq
    rw [hcast, BitVec.ofInt_natCast, BitVec.toNat_ofNat, BitVec.toNat_twoPow]
  rw [BitVec.shiftLeft_eq_mul_twoPow, BitVec.ofInt_mul, hpow]

theorem ofInt_toNat (x : U64) : BitVec.ofInt 64 x.toNat = x := by
  rw [BitVec.ofInt_natCast, BitVec.ofNat_toNat, BitVec.setWidth_eq]

theorem lowWord_eq (raw : U64) : lowWord raw = BitVec.ofInt 64 (raw.setWidth 32).toNat := by
  rw [BitVec.ofInt_natCast, BitVec.ofNat_toNat]
  rfl

theorem rdReadPerfReg_x (regs : PtRegs) (n : Fin 31) : rdReadPerfReg regs n false = regs.regs n := by
  have hn := n.isLt
  have hsp : ¬ ((false : Bool) = true ∨ (n : ℤ) = perfRegSp) := by
    unfold perfRegSp
    simp
    omega
  unfold rdReadPerfReg
  rw [if_neg hsp]
  by_cases h : n.val ≤ 29
  · rw [dif_pos ⟨by omega, by omega⟩]
    rfl
  · have h30 : n = 30 := Fin.ext (by change n.val = 30; omega)
    subst h30
    rfl

theorem Base.read (regs : PtRegs) (b : Base) :
    rdReadPerfReg regs b.reg b.isSp = b.value regs := by
  cases b with
  | x n => exact rdReadPerfReg_x regs n
  | sp => rfl

theorem IndexReg.read (regs : PtRegs) {is64 : Bool} (m : IndexReg is64) :
    (if m.isZero then 0 else rdReadPerfReg regs m.reg false).setWidth (gprWidth is64) =
      m.value regs := by
  cases m with
  | x n => exact (BitVec.setWidth_eq _).trans (rdReadPerfReg_x regs n)
  | w n => exact congrArg (BitVec.setWidth 32) (rdReadPerfReg_x regs n.castSucc)
  | zr is64 => cases is64 <;> rfl

theorem IndexExtend.term {is64 : Bool} (e : IndexExtend is64) {dec : Decode}
    (h : dec.extend = e.template.code) (h32 : dec.indexIs32 = !is64) (raw : U64) :
    indexTerm dec raw =
      BitVec.ofInt 64 (e.extend (raw.setWidth (gprWidth is64)) * 2 ^ dec.shift.toNat) := by
  rw [← shiftLeft_ofInt]
  cases e with
  | lsl =>
      change _ = BitVec.ofInt 64 (raw.setWidth 64).toNat <<< dec.shift.toNat
      rw [BitVec.setWidth_eq, ofInt_toNat]
      simp [indexTerm, h, h32, IndexExtend.template, TemplateExtend.code, ExtendKind.none,
        ExtendKind.lsl]
  | uxtx =>
      change _ = BitVec.ofInt 64 (raw.setWidth 64).toNat <<< dec.shift.toNat
      rw [BitVec.setWidth_eq, ofInt_toNat]
      simp [indexTerm, h, IndexExtend.template, TemplateExtend.code, ExtendKind.none,
        ExtendKind.lsl, ExtendKind.uxtw, ExtendKind.sxtw, ExtendKind.uxtx]
  | sxtx =>
      change _ = BitVec.ofInt 64 (raw.setWidth 64).toInt <<< dec.shift.toNat
      rw [BitVec.setWidth_eq, BitVec.ofInt_toInt]
      simp [indexTerm, h, IndexExtend.template, TemplateExtend.code, ExtendKind.none,
        ExtendKind.lsl, ExtendKind.uxtw, ExtendKind.sxtw, ExtendKind.uxtx, ExtendKind.sxtx]
  | uxtw =>
      change _ = BitVec.ofInt 64 (raw.setWidth 32).toNat <<< dec.shift.toNat
      rw [← lowWord_eq]
      simp [indexTerm, h, IndexExtend.template, TemplateExtend.code, ExtendKind.none,
        ExtendKind.lsl, ExtendKind.uxtw]
  | sxtw =>
      change _ = (raw.setWidth 32).signExtend 64 <<< dec.shift.toNat
      simp [indexTerm, h, IndexExtend.template, TemplateExtend.code, ExtendKind.none,
        ExtendKind.lsl, ExtendKind.uxtw, ExtendKind.sxtw]

theorem amountShift_toNat (amount : Option (Fin 5)) :
    (amountShift amount).toNat = amount.elim 0 Fin.val := by
  cases amount with
  | none => rfl
  | some s => exact Nat.mod_eq_of_lt (s.isLt.trans (by decide))

/-- The kernel computes the architectural address. -/
theorem rdComputeEffectiveAddress_template (op : Operand) (regs : PtRegs) :
    rdComputeEffectiveAddress (toUapiDecode op.template) regs =
      BitVec.ofInt 64 (op.effectiveAddress regs) := by
  obtain ⟨dest, base, address⟩ := op
  have hbase := base.read regs
  unfold Operand.effectiveAddress
  rw [BitVec.ofInt_add, ofInt_toNat]
  cases address with
  | plain | postIndex =>
      change rdReadPerfReg regs base.reg base.isSp = base.value regs + 0#64
      rw [hbase, BitVec.add_zero]
  | offset imm | preIndex imm =>
      change rdReadPerfReg regs base.reg base.isSp + BitVec.ofInt 64 imm.val = _
      rw [hbase]
      rfl
  | index m =>
      change rdReadPerfReg regs base.reg base.isSp +
        (if m.isZero then 0 else rdReadPerfReg regs m.reg false) = _
      have hread := (BitVec.setWidth_eq _).symm.trans (m.read regs)
      rw [hbase, hread]
      exact congrArg (base.value regs + ·) (ofInt_toNat (m.value regs)).symm
  | extended m e amount =>
      change rdReadPerfReg regs base.reg base.isSp + indexTerm _
        (if m.isZero then 0 else rdReadPerfReg regs m.reg false) = _
      rw [hbase, e.term rfl rfl, m.read]
      change _ + BitVec.ofInt 64 (_ * 2 ^ (amountShift amount).toNat) = _
      rw [amountShift_toNat]
      rfl

theorem Base.reg_range (b : Base) : 0 ≤ b.reg ∧ b.reg ≤ perfRegSp := by
  cases b with
  | x n =>
      have hn := n.isLt
      change 0 ≤ (n : ℤ) ∧ (n : ℤ) ≤ 31
      omega
  | sp => decide

theorem IndexReg.reg_range {is64 : Bool} (m : IndexReg is64) (h : m.isZero = false) :
    0 ≤ m.reg ∧ m.reg ≤ perfRegLr := by
  cases m with
  | zr => cases h
  | x n | w n =>
      have hn := n.isLt
      change 0 ≤ (n : ℤ) ∧ (n : ℤ) ≤ 30
      omega

/-- Index registers are numbered up to the link register, unless they are zero. -/
theorem Operand.index_range (op : Operand) (h : op.template.indexIsZero = false)
    (hindex : op.template.hasIndex = true) :
    0 ≤ op.template.indexReg ∧ op.template.indexReg ≤ perfRegLr := by
  obtain ⟨dest, base, address⟩ := op
  cases address with
  | plain | postIndex | offset | preIndex => cases hindex
  | index m => exact m.reg_range h
  | extended m => exact m.reg_range h

theorem Operand.template_base (op : Operand) : op.template.accessSize = op.dest.width ∧
    op.template.baseReg = op.base.reg := by
  obtain ⟨dest, base, address⟩ := op
  cases address <;> exact ⟨rfl, rfl⟩

theorem TemplateExtend.code_le (e : TemplateExtend) : ¬ e.code > ExtendKind.sxtx := by
  cases e <;> decide

theorem toUapiDecode_accessSize (op : Operand) :
    (toUapiDecode op.template).accessSize = op.dest.width := by
  change (BitVec.ofInt 32 op.template.accessSize).toNat = _
  rw [op.template_base.1, BitVec.ofInt_natCast]
  have h := op.dest.width_eq
  exact Nat.mod_eq_of_lt (by omega)

/-- The kernel accepts the template at every nonzero address. -/
theorem rdValidateTarget_template (op : Operand) {target : Target}
    (hdec : target.decode = toUapiDecode op.template) (hpc : target.absPc ≠ 0) :
    rdValidateTarget target = 0 := by
  have hsize := op.dest.width_eq
  have hbase := op.base.reg_range
  unfold rdValidateTarget
  dsimp only
  rw [hdec, if_neg hpc, toUapiDecode_accessSize, if_neg (by omega)]
  have hreg : ¬ (op.template.baseReg < 0 ∨ op.template.baseReg > perfRegSp) := by
    rw [op.template_base.2]
    omega
  have hindex : ¬ (op.template.hasIndex = true ∧ ¬ op.template.indexIsZero = true ∧
      (op.template.indexReg < 0 ∨ op.template.indexReg > perfRegLr)) := by
    rintro ⟨hi, hz, hr⟩
    have h := op.index_range (by simpa using hz) hi
    omega
  exact (if_neg hreg).trans ((if_neg hindex).trans (if_neg op.template.extend.code_le))

/-- The decoder and the kernel agree on every scalar load and store operand: its text is decoded,
the template is accepted, its width is the architectural one, and for every register file the
kernel computes the architectural effective address modulo `2 ^ 64`. -/
theorem operand_decoder_agrees (mnemonic : Text) (f : Format) (op : Operand) :
    ∃ dec, decodeFromAsmOperands mnemonic (op.text f) = .ok dec ∧
      (∀ target : Target, target.decode = toUapiDecode dec → target.absPc ≠ 0 →
        rdValidateTarget target = 0) ∧
      (toUapiDecode dec).accessSize = op.dest.width ∧
      ∀ regs, rdComputeEffectiveAddress (toUapiDecode dec) regs =
        BitVec.ofInt 64 (op.effectiveAddress regs) := by
  refine ⟨op.template, decodeFromAsmOperands_text mnemonic f op, ?_, toUapiDecode_accessSize op,
    rdComputeEffectiveAddress_template op⟩
  intro target hdec hpc
  exact rdValidateTarget_template op hdec hpc

theorem operand_decoder_agrees_indexed : ∃ dec,
    decodeFromAsmOperands ['l', 'd', 'r'] ['w', '1', ',', ' ', '[', 's', 'p', ',', ' ', 'w', '2', ',',
      ' ', 's', 'x', 't', 'w', ' ', '#', '2', ']'] = .ok dec ∧
      rdValidateTarget ⟨0x100, 0x400100, 1, toUapiDecode dec⟩ = 0 := by
  obtain ⟨dec, hdec, hvalid, -⟩ := operand_decoder_agrees ['l', 'd', 'r'] ⟨1, false⟩
    ⟨.gpr false 1, .sp, .extended (.w 2) .sxtw (some 2)⟩
  have hpc : (0x400100 : U64) ≠ 0 := by decide
  exact ⟨dec, hdec, hvalid _ rfl hpc⟩

end RdSpeTool
