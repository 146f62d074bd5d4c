import RdSpeTool.Disassembly
import RdSpeTool.ShellWords

/-!
# The command of the disassembler

The path of the profiled binary goes into the command line that `popen` hands to the shell. Quoting
makes one word of it, whatever its characters are.
-/

namespace RdSpeTool

open CText ShellWords

/-- The body of a quotation reads as the text, all of it protected. -/
theorem reads_quoteBody (s : Text) (ps : List Piece) :
    Reads (.single, some ps) (s.flatMap fun c =>
        if c = quoteChar then [quoteChar, '\\', quoteChar, quoteChar] else [c])
      [] (.single, some (ps ++ s.map .literal)) := by
  induction s generalizing ps with
  | nil =>
      rw [List.map_nil, List.append_nil]
      exact Reads.nil _
  | cons c s ih =>
      have hrest := ih (ps ++ [.literal c])
      rw [List.append_assoc] at hrest
      rw [List.flatMap_cons]
      refine @Reads.append _ _ _ _ _ [] _ ?_ hrest
      by_cases hquote : c = quoteChar
      · -- the quotation ends, an escaped quote follows, and the next quotation begins
        rw [if_pos hquote, hquote]
        rfl
      · rw [if_neg hquote]
        refine reads_single ?_ ps
        rw [List.mem_singleton]
        exact Ne.symm hquote

theorem reads_shellQuote (s : Text) (w : Option (List Piece)) :
    Reads (.plain, w) (shellQuote s) [] (.plain, some (w.getD [] ++ s.map .literal)) := by
  have hopen : Reads (.plain, w) [quoteChar] [] (.single, some (w.getD [])) := rfl
  have hclose : Reads (.single, some (w.getD [] ++ s.map .literal)) [quoteChar] []
      (.plain, some (w.getD [] ++ s.map .literal)) := rfl
  exact (hopen.append (reads_quoteBody s _)).append hclose

theorem ordinary_hexU64 (v : U64) : ∀ c ∈ hexU64 v, Ordinary c := by
  intro c hc hspecial
  have hnone : special.all (fun d => 16 ≤ digitValue d) = true := rfl
  have hlarge := of_decide_eq_true (List.all_eq_true.mp hnone c hspecial)
  have hdigit := hexU64_digits v hc
  omega

theorem ordinary_disassembler {tool : Text} (h : tool ∈ disassemblers) :
    tool ≠ [] ∧ ∀ c ∈ tool, Ordinary c := by
  simp only [disassemblers, List.mem_cons, List.not_mem_nil, or_false] at h
  rcases h with rfl | rfl
  · exact ⟨List.cons_ne_nil _ _, ordinary_of_all rfl⟩
  · exact ⟨List.cons_ne_nil _ _, ordinary_of_all rfl⟩

def objdumpTokens (binaryPath : Text) (pcOffset : U64) (tool : Text) : List Token :=
  [.word (tool.map .bare), .word ("-d".toList.map .bare),
    .word (("--start-address=0x".toList ++ hexU64 pcOffset).map .bare),
    .word (("--stop-address=0x".toList ++ hexU64 (pcOffset + 4)).map .bare),
    .word (binaryPath.map .literal), .ioNumber ['2'], .operator ['>'],
    .word ("/dev/null".toList.map .bare)]

theorem lex_objdumpCommand (binaryPath : Text) (pcOffset : U64) {tool : Text}
    (h : tool ∈ disassemblers) : lex (objdumpCommand binaryPath pcOffset tool) =
      some (objdumpTokens binaryPath pcOffset tool) := by
  obtain ⟨hne, htool⟩ := ordinary_disassembler h
  have hoption : Reads (.plain, none) ("-d".toList ++ [' ']) [.word ("-d".toList.map .bare)]
      (.plain, none) :=
    reads_word_blank (List.cons_ne_nil _ _) (ordinary_of_all rfl)
  have haddress : ∀ (option : Text) (v : U64), option ≠ [] → (∀ c ∈ option, Ordinary c) →
      Reads (.plain, none) (option ++ hexU64 v ++ [' ']) [.word ((option ++ hexU64 v).map .bare)]
        (.plain, none) := by
    intro option v hoption hordinary
    refine reads_word_blank (List.append_ne_nil_of_left_ne_nil hoption _) ?_
    intro c hc
    rcases List.mem_append.mp hc with hc | hc
    · exact hordinary c hc
    · exact ordinary_hexU64 v c hc
  have hstart := haddress "--start-address=0x".toList pcOffset (List.cons_ne_nil _ _)
    (ordinary_of_all rfl)
  have hstop := haddress "--stop-address=0x".toList (pcOffset + 4) (List.cons_ne_nil _ _)
    (ordinary_of_all rfl)
  have hpath := (reads_shellQuote binaryPath none).append (reads_blank _)
  have hredirect : Reads (.plain, none) "2>/dev/null".toList [.ioNumber ['2'], .operator ['>']]
      (.plain, some ("/dev/null".toList.map .bare)) := rfl
  have hread := (reads_word_blank hne htool).append
    (hoption.append (hstart.append (hstop.append (hpath.append hredirect))))
  have htext : objdumpCommand binaryPath pcOffset tool = tool ++ [' '] ++ ("-d".toList ++ [' '] ++
      ("--start-address=0x".toList ++ hexU64 pcOffset ++ [' '] ++
        ("--stop-address=0x".toList ++ hexU64 (pcOffset + 4) ++ [' '] ++
          (shellQuote binaryPath ++ [' '] ++ "2>/dev/null".toList)))) := by
    simp [objdumpCommand]
  rw [htext]
  exact hread.lex_eq rfl

theorem cstr_of_notMem {s : Text} (h : Char.ofNat 0 ∉ s) : cstr s = s := by
  unfold cstr
  rw [List.takeWhile_eq_self_iff]
  intro c hc
  simp only [bne_iff_ne]
  rintro rfl
  exact h hc

theorem nul_notMem_shellQuote {s : Text} (h : Char.ofNat 0 ∉ s) : Char.ofNat 0 ∉ shellQuote s := by
  intro hmem
  unfold shellQuote at hmem
  simp only [List.mem_append, List.mem_singleton, List.mem_flatMap] at hmem
  rcases hmem with (hopen | ⟨c, hc, hbody⟩) | hclose
  · exact absurd hopen (by decide)
  · split_ifs at hbody
    · exact absurd hbody (by decide)
    · rw [List.mem_singleton] at hbody
      exact h (hbody ▸ hc)
  · exact absurd hclose (by decide)

theorem nul_notMem_objdumpCommand {s : Text} (h : Char.ofNat 0 ∉ s) (pcOffset : U64) {tool : Text}
    (htool : tool ∈ disassemblers) : Char.ofNat 0 ∉ objdumpCommand s pcOffset tool := by
  have hnul : ∀ t ∈ disassemblers, Char.ofNat 0 ∉ t := by decide
  have hhex : ∀ v, Char.ofNat 0 ∉ hexU64 v := by
    intro v hmem
    exact absurd (hexU64_digits v hmem) (by decide)
  unfold objdumpCommand
  simp only [List.mem_append, not_or]
  exact ⟨⟨⟨⟨⟨⟨⟨hnul tool htool, by decide⟩, hhex _⟩, by decide⟩, hhex _⟩, by decide⟩,
    nul_notMem_shellQuote h⟩, by decide⟩

/-- A text without NUL is quoted to exactly one word, and the path in the command of the
disassembler is such a word. -/
theorem shell_quote_exact (s : Text) (h : Char.ofNat 0 ∉ s) :
    lex (cstr (shellQuote s)) = some [.word (s.map .literal)] ∧
      (s.map Piece.literal).map Piece.char = s ∧
      ∀ tool ∈ disassemblers, ∀ pcOffset,
        lex (cstr (objdumpCommand s pcOffset tool)) = some (objdumpTokens s pcOffset tool) := by
  refine ⟨?_, ?_, ?_⟩
  · rw [cstr_of_notMem (nul_notMem_shellQuote h)]
    exact (reads_shellQuote s none).lex_eq rfl
  · rw [List.map_map]
    exact List.map_id s
  · intro tool htool pcOffset
    rw [cstr_of_notMem (nul_notMem_objdumpCommand h pcOffset htool)]
    exact lex_objdumpCommand s pcOffset htool

theorem shell_quote_exact_quotes :
    lex (cstr (shellQuote [quoteChar, ' ', '$', quoteChar])) =
      some [.word [.literal quoteChar, .literal ' ', .literal '$', .literal quoteChar]] :=
  (shell_quote_exact [quoteChar, ' ', '$', quoteChar] (by decide)).1

end RdSpeTool
