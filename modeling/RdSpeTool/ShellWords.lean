import Mathlib.Tactic

/-!
# Words of a shell command

The tokens a POSIX shell reads from a command, with the characters of a word that quoting protects.
Quotes, backslashes, blanks, comments and operators are read as the shell reads them. A text with an
expansion, or with a quotation that does not end, is not read.
-/

namespace RdSpeTool.ShellWords

/-- A character of a word: protected by quoting, or open to the shell. -/
inductive Piece
  | literal (c : Char)
  | bare (c : Char)
  deriving DecidableEq

def Piece.char : Piece → Char
  | literal c => c
  | bare c => c

inductive Token
  | word (pieces : List Piece)
  | ioNumber (digits : List Char)
  | operator (text : List Char)
  deriving DecidableEq

def singleQuote : Char := Char.ofNat 39

def operators : List (List Char) :=
  [['&'], ['|'], [';'], ['<'], ['>'], ['('], [')'], ['\n'], ['&', '&'], ['|', '|'], [';', ';'],
    ['<', '<'], ['>', '>'], ['<', '&'], ['>', '&'], ['<', '>'], ['>', '|'], ['<', '<', '-']]

inductive Context
  | plain
  | escaped
  | single
  | double
  | doubleEscaped
  | comment
  | operator (text : List Char)
  deriving DecidableEq

abbrev LexState := Context × Option (List Piece)

def push (p : Piece) (w : Option (List Piece)) : Option (List Piece) := some (w.getD [] ++ [p])

def flush : Option (List Piece) → List Token
  | none => []
  | some ps => [.word ps]

/-- Digits in front of a redirection are the number of a descriptor. -/
def flushBefore (c : Char) : Option (List Piece) → List Token
  | none => []
  | some ps =>
      if (c = '<' ∨ c = '>') ∧ ps ≠ [] ∧ ∀ p ∈ ps, p = .bare p.char ∧ p.char.isDigit = true then
        [.ioNumber (ps.map Piece.char)]
      else [.word ps]

def stepPlain (w : Option (List Piece)) (c : Char) : Option (List Token × LexState) :=
  if c = ' ' ∨ c = '\t' then some (flush w, .plain, none)
  else if operators.contains [c] then some (flushBefore c w, .operator [c], none)
  else if c = singleQuote then some ([], .single, some (w.getD []))
  else if c = '"' then some ([], .double, some (w.getD []))
  else if c = '\\' then some ([], .escaped, w)
  else if c = '#' ∧ w = none then some ([], .comment, none)
  else if c = '$' ∨ c = Char.ofNat 96 then none
  else some ([], .plain, push (.bare c) w)

def step : LexState → Char → Option (List Token × LexState)
  | (.plain, w), c => stepPlain w c
  | (.escaped, w), c => some ([], .plain, if c = '\n' then w else push (.literal c) w)
  | (.single, w), c => some (if c = singleQuote then ([], .plain, w)
      else ([], .single, push (.literal c) w))
  | (.double, w), c =>
      if c = '"' then some ([], .plain, w)
      else if c = '\\' then some ([], .doubleEscaped, w)
      else if c = '$' ∨ c = Char.ofNat 96 then none
      else some ([], .double, push (.literal c) w)
  | (.doubleEscaped, w), c =>
      if c = '\n' then some ([], .double, w)
      else if c ∈ ['$', Char.ofNat 96, '"', '\\'] then some ([], .double, push (.literal c) w)
      else some ([], .double, push (.literal c) (push (.literal '\\') w))
  | (.comment, _), c =>
      some (if c = '\n' then ([], .operator ['\n'], none) else ([], .comment, none))
  | (.operator t, _), c =>
      if operators.contains (t ++ [c]) then some ([], .operator (t ++ [c]), none)
      else (stepPlain none c).map fun r => (.operator t :: r.1, r.2)

def run : List Char → LexState → Option (List Token × LexState)
  | [], s => some ([], s)
  | c :: cs, s => (step s c).bind fun r => (run cs r.2).map fun q => (r.1 ++ q.1, q.2)

def finish : LexState → Option (List Token)
  | (.plain, w) => some (flush w)
  | (.operator t, _) => some [.operator t]
  | (.comment, _) => some []
  | _ => none

def lex (text : List Char) : Option (List Token) :=
  (run text (.plain, none)).bind fun r => (finish r.2).map fun ts => r.1 ++ ts

/-! ## Composing runs -/

/-- A text takes one state to another and ends these tokens. -/
def Reads (s : LexState) (text : List Char) (ts : List Token) (t : LexState) : Prop :=
  run text s = some (ts, t)

variable {s t u : LexState} {xs ys : List Char} {ts us : List Token}

theorem Reads.nil (s : LexState) : Reads s [] [] s := rfl

theorem Reads.cons {c : Char} (hstep : step s c = some (ts, t)) (h : Reads t xs us u) :
    Reads s (c :: xs) (ts ++ us) u := by
  unfold Reads at h ⊢
  rw [run, hstep, Option.bind_some, h, Option.map_some]

theorem Reads.append (hx : Reads s xs ts t) (hy : Reads t ys us u) :
    Reads s (xs ++ ys) (ts ++ us) u := by
  induction xs generalizing s ts with
  | nil =>
      cases hx
      exact hy
  | cons c xs ih =>
      unfold Reads at hx
      rw [run] at hx
      obtain ⟨r, hstep, hrest⟩ := Option.bind_eq_some_iff.mp hx
      obtain ⟨q, hrun, hq⟩ := Option.map_eq_some_iff.mp hrest
      cases hq
      rw [List.cons_append, List.append_assoc]
      exact Reads.cons hstep (ih hrun)

theorem Reads.lex_eq (h : Reads (.plain, none) xs ts t) (hfinish : finish t = some us) :
    lex xs = some (ts ++ us) := by
  have hrun : run xs (.plain, none) = some (ts, t) := h
  unfold lex
  rw [hrun, Option.bind_some, hfinish, Option.map_some]

/-! ## Words -/

def special : List Char :=
  [' ', '\t', '&', '|', ';', '<', '>', '(', ')', '\n', singleQuote, '"', '\\', '#', '$',
    Char.ofNat 96]

def Ordinary (c : Char) : Prop := c ∉ special

theorem step_of_ordinary {c : Char} (h : Ordinary c) (w : Option (List Piece)) :
    step (.plain, w) c = some ([], .plain, push (.bare c) w) := by
  simp only [Ordinary, special, List.mem_cons, List.not_mem_nil, or_false, not_or] at h
  simp [step, stepPlain, operators, h]

theorem ordinary_of_all {word : List Char} (h : word.all (fun c => !special.elem c) = true) :
    ∀ c ∈ word, Ordinary c := by
  intro c hc hspecial
  have hfree := List.all_eq_true.mp h c hc
  rw [List.elem_eq_true_of_mem hspecial] at hfree
  cases hfree

/-- Ordinary characters continue the word as they are. -/
theorem reads_bare {word : List Char} (h : ∀ c ∈ word, Ordinary c) (ps : List Piece) :
    Reads (.plain, some ps) word [] (.plain, some (ps ++ word.map .bare)) := by
  induction word generalizing ps with
  | nil =>
      rw [List.map_nil, List.append_nil]
      exact Reads.nil _
  | cons c word ih =>
      have hrest := ih (fun d hd => h d (List.mem_cons_of_mem c hd)) (ps ++ [.bare c])
      rw [List.append_assoc] at hrest
      exact Reads.cons (step_of_ordinary (h c List.mem_cons_self) (some ps)) hrest

theorem reads_word {word : List Char} (hne : word ≠ []) (h : ∀ c ∈ word, Ordinary c) :
    Reads (.plain, none) word [] (.plain, some (word.map .bare)) := by
  obtain ⟨c, rest, rfl⟩ := List.exists_cons_of_ne_nil hne
  exact Reads.cons (step_of_ordinary (h c List.mem_cons_self) none)
    (reads_bare (fun d hd => h d (List.mem_cons_of_mem c hd)) [.bare c])

/-- Blanks end a word. -/
theorem reads_blank (w : Option (List Piece)) :
    Reads (.plain, w) [' '] (flush w) (.plain, none) := by
  have hread := Reads.cons (s := (.plain, w)) (c := ' ') rfl (Reads.nil (.plain, none))
  rwa [List.append_nil] at hread

theorem reads_word_blank {word : List Char} (hne : word ≠ []) (h : ∀ c ∈ word, Ordinary c) :
    Reads (.plain, none) (word ++ [' ']) [.word (word.map .bare)] (.plain, none) :=
  (reads_word hne h).append (reads_blank _)

/-- Between single quotes every other character is protected. -/
theorem reads_single {text : List Char} (h : singleQuote ∉ text) (ps : List Piece) :
    Reads (.single, some ps) text [] (.single, some (ps ++ text.map .literal)) := by
  induction text generalizing ps with
  | nil =>
      rw [List.map_nil, List.append_nil]
      exact Reads.nil _
  | cons c text ih =>
      rw [List.mem_cons, not_or] at h
      have hrest := ih h.2 (ps ++ [.literal c])
      rw [List.append_assoc] at hrest
      have hstep : step (.single, some ps) c =
          some ([], .single, some (ps ++ [.literal c])) := by
        simp [step, Ne.symm h.1, push]
      exact Reads.cons hstep hrest

example : lex "a\\ b 'c d'>e".toList = some [.word [.bare 'a', .literal ' ', .bare 'b'],
    .word [.literal 'c', .literal ' ', .literal 'd'], .operator ['>'], .word [.bare 'e']] := rfl

end RdSpeTool.ShellWords
