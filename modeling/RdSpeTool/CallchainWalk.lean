import Mathlib.Data.List.Chain
import RdSpeTool.ContextCapture
import RdSpeTool.Session

/-!
# The frame-pointer walk as a loop

One round of the loop of `rd_capture_callchain`, and the loop with a bound on its rounds and with
or without its depth limit. The frame pointer grows from round to round, so the loop ends whatever
the user's stack holds; the limited walk yields a prefix of the unlimited one.
-/

namespace RdSpeTool

/-- How a round ends: the function returns with the chain, or the loop goes on. -/
inductive FrameStep
  | stop (ips : List U64)
  | next (ips : List U64) (fp : U64)

def frameStep (u : UserMem) (ips : List U64) (fp : U64) : FrameStep :=
  if fp = 0 then .stop ips
  else if fp &&& 0x7 ≠ 0 then .stop ips
  else if u.accessOk fp 16 = false then .stop ips
  else
    match u.copy fp 16 with
    | none => .stop ips
    | some frame =>
        let prevFp := leWord frame
        let lr := leWord (frame.drop 8)
        if lr = 0 then .stop ips
        else
          let ips' := if ips.getLast? = some lr then ips else ips ++ [lr]
          if prevFp = 0 then .stop ips'
          else if prevFp ≤ fp then .stop ips'
          else .next ips' prevFp

/-- At most `n` rounds of the loop; nothing if they do not end it. Without a limit the depth is not
tested. -/
def walkLoop (u : UserMem) (limit : Option ℕ) : ℕ → List U64 → U64 → Option (List U64 × Bool)
  | 0, _, _ => none
  | n + 1, ips, fp =>
      if limit.all (ips.length < ·) then
        match frameStep u ips fp with
        | .stop ips' => some (ips', false)
        | .next ips' fp' => walkLoop u limit n ips' fp'
      else some (ips, fp ≠ 0)

/-- A round adds at most one address, which is neither zero nor the last one again. -/
def ExtendsChain (ips ips' : List U64) : Prop :=
  ips' = ips ∨ ∃ lr, lr ≠ 0 ∧ ips.getLast? ≠ some lr ∧ ips' = ips ++ [lr]

/-- What a round can do: it returns, or it goes on with a larger frame pointer. -/
theorem frameStep_cases (u : UserMem) (ips : List U64) (fp : U64) :
    ∃ ips', ExtendsChain ips ips' ∧ (frameStep u ips fp = .stop ips' ∨
      ∃ fp', fp.toNat < fp'.toNat ∧ frameStep u ips fp = .next ips' fp') := by
  unfold frameStep
  split_ifs
  · exact ⟨ips, .inl rfl, .inl rfl⟩
  · exact ⟨ips, .inl rfl, .inl rfl⟩
  · exact ⟨ips, .inl rfl, .inl rfl⟩
  cases u.copy fp 16 with
  | none => exact ⟨ips, .inl rfl, .inl rfl⟩
  | some frame =>
      dsimp only
      by_cases hlr : leWord (frame.drop 8) = 0
      · rw [if_pos hlr]
        exact ⟨ips, .inl rfl, .inl rfl⟩
      rw [if_neg hlr]
      refine ⟨if ips.getLast? = some (leWord (frame.drop 8)) then ips
        else ips ++ [leWord (frame.drop 8)], ?_, ?_⟩
      · split_ifs with hdup
        · exact .inl rfl
        · exact .inr ⟨_, hlr, hdup, rfl⟩
      · by_cases hzero : leWord frame = 0
        · rw [if_pos hzero]
          exact .inl rfl
        rw [if_neg hzero]
        by_cases hle : leWord frame ≤ fp
        · rw [if_pos hle]
          exact .inl rfl
        rw [if_neg hle]
        exact .inr ⟨leWord frame, BitVec.not_le.mp hle, rfl⟩

theorem walkFrames_eq (u : UserMem) (ips : List U64) (fp : U64) :
    walkFrames u ips fp = if ips.length < maxCallchainDepth then
      match frameStep u ips fp with
      | .stop ips' => (ips', false)
      | .next ips' fp' => walkFrames u ips' fp'
    else (ips, decide (fp ≠ 0)) := by
  rw [walkFrames.eq_def]
  unfold frameStep
  cases u.copy fp 16 with
  | none => split_ifs <;> rfl
  | some frame =>
      dsimp only
      split_ifs <;> rfl

/-! ## The loop ends -/

/-- The distance of the frame pointer to the end of the address space bounds the rounds, with or
without a limit on the depth. -/
theorem walkLoop_isSome (u : UserMem) (limit : Option ℕ) {n : ℕ} {ips : List U64} {fp : U64}
    (hn : 2 ^ 64 - fp.toNat ≤ n) : (walkLoop u limit n ips fp).isSome = true := by
  induction n generalizing ips fp with
  | zero =>
      have := fp.isLt
      omega
  | succ n ih =>
      rw [walkLoop]
      split_ifs
      · obtain ⟨ips', -, h | ⟨fp', hlt, h⟩⟩ := frameStep_cases u ips fp
        · rw [h]
          rfl
        · rw [h]
          exact ih (by omega)
      · rfl

theorem walkLoop_mono {u : UserMem} {limit : Option ℕ} {n m : ℕ} (hnm : n ≤ m) {ips : List U64}
    {fp : U64} {r : List U64 × Bool} (h : walkLoop u limit n ips fp = some r) :
    walkLoop u limit m ips fp = some r := by
  induction n generalizing m ips fp with
  | zero => cases h
  | succ n ih =>
      obtain ⟨m, rfl⟩ : ∃ k, m = k + 1 := ⟨m - 1, by omega⟩
      rw [walkLoop] at h ⊢
      split_ifs at h ⊢
      · obtain ⟨ips', -, hstep | ⟨fp', -, hstep⟩⟩ := frameStep_cases u ips fp
        · rw [hstep] at h ⊢
          exact h
        · rw [hstep] at h ⊢
          exact ih (by omega) h
      · exact h

/-- One result for every number of rounds from `2 ^ 64` on. -/
theorem exists_walkLoop (u : UserMem) (limit : Option ℕ) (ips : List U64) (fp : U64) :
    ∃ r, ∀ n, 2 ^ 64 ≤ n → walkLoop u limit n ips fp = some r := by
  have hsome : (walkLoop u limit (2 ^ 64) ips fp).isSome = true :=
    walkLoop_isSome u limit (Nat.sub_le _ _)
  obtain ⟨r, hr⟩ := Option.isSome_iff_exists.mp hsome
  exact ⟨r, fun n hn => walkLoop_mono hn hr⟩

/-- The kernel's walk is the loop with the kernel's limit. -/
theorem walkLoop_limited {u : UserMem} {n : ℕ} {ips : List U64} {fp : U64} {r : List U64 × Bool}
    (h : walkLoop u (some maxCallchainDepth) n ips fp = some r) : walkFrames u ips fp = r := by
  induction n generalizing ips fp with
  | zero => cases h
  | succ n ih =>
      rw [walkLoop] at h
      rw [walkFrames_eq]
      simp only [Option.all_some, decide_eq_true_eq] at h
      split_ifs at h ⊢ with hroom
      · obtain ⟨ips', -, hstep | ⟨fp', -, hstep⟩⟩ := frameStep_cases u ips fp
        · rw [hstep] at h ⊢
          exact Option.some.inj h
        · rw [hstep] at h ⊢
          exact ih h
      · exact Option.some.inj h

/-- Without a limit the loop only ends by returning. -/
theorem walkLoop_unlimited {u : UserMem} {n : ℕ} {ips : List U64} {fp : U64} {r : List U64 × Bool}
    (h : walkLoop u none n ips fp = some r) : ips <+: r.1 ∧ r.2 = false := by
  induction n generalizing ips fp with
  | zero => cases h
  | succ n ih =>
      simp only [walkLoop, Option.all_none, if_true] at h
      obtain ⟨ips', hext, hstep⟩ := frameStep_cases u ips fp
      have hinit : ips <+: ips' := by
        rcases hext with rfl | ⟨lr, -, -, rfl⟩
        · exact List.prefix_rfl
        · exact List.prefix_append _ _
      rcases hstep with hstep | ⟨fp', -, hstep⟩
      · rw [hstep] at h
        cases h
        exact ⟨hinit, rfl⟩
      · rw [hstep] at h
        obtain ⟨hrest, hflag⟩ := ih h
        exact ⟨hinit.trans hrest, hflag⟩

/-! ## What the walk collects -/

/-- A well-formed chain: not empty, no zero address, no address twice in a row. -/
structure ChainOk (ips : List U64) : Prop where
  nonempty : ips ≠ []
  nonzero : ∀ ip ∈ ips, ip ≠ 0
  adjacent : ips.IsChain (· ≠ ·)

theorem ChainOk.extend {ips ips' : List U64} (h : ChainOk ips) (hext : ExtendsChain ips ips') :
    ChainOk ips' := by
  rcases hext with rfl | ⟨lr, hlr, hlast, rfl⟩
  · exact h
  · refine ⟨by simp, ?_, ?_⟩
    · intro ip hip
      rcases List.mem_append.mp hip with hmem | hmem
      · exact h.nonzero ip hmem
      · rw [List.mem_singleton.mp hmem]
        exact hlr
    · refine h.adjacent.append (List.isChain_singleton lr) ?_
      intro x hx y hy
      obtain rfl : lr = y := by simpa using hy
      rintro rfl
      exact hlast hx

theorem length_le_of_extends {ips ips' : List U64} (hext : ExtendsChain ips ips') :
    ips'.length ≤ ips.length + 1 := by
  rcases hext with rfl | ⟨lr, -, -, rfl⟩
  · omega
  · simp

/-- The two loops side by side, from a chain within the limit. -/
theorem walkLoop_prefix {u : UserMem} {limit n : ℕ} {ips : List U64} {fp : U64}
    {r full : List U64 × Bool} (hok : ChainOk ips) (hroom : ips.length ≤ limit)
    (h : walkLoop u (some limit) n ips fp = some r) (hfull : walkLoop u none n ips fp = some full) :
    ChainOk r.1 ∧ r.1.length ≤ limit ∧ r.1 <+: full.1 ∧
      (r.1.length < full.1.length → r.2 = true) := by
  induction n generalizing ips fp with
  | zero => cases h
  | succ n ih =>
      rw [walkLoop] at h
      by_cases hlt : ips.length < limit
      · -- both loops take the same round
        rw [walkLoop] at hfull
        simp only [Option.all_some, hlt, decide_true, if_true] at h
        simp only [Option.all_none, if_true] at hfull
        obtain ⟨ips', hext, hstep | ⟨fp', -, hstep⟩⟩ := frameStep_cases u ips fp
        · rw [hstep] at h hfull
          cases h
          cases hfull
          have hlen := length_le_of_extends hext
          exact ⟨hok.extend hext, by dsimp only; omega, List.prefix_rfl,
            fun hh => absurd hh (lt_irrefl _)⟩
        · rw [hstep] at h hfull
          have hlen := length_le_of_extends hext
          exact ih (hok.extend hext) (by omega) h hfull
      · -- the limited loop is cut off here
        simp only [Option.all_some, hlt, decide_false, Bool.false_eq_true, if_false] at h
        cases h
        refine ⟨hok, hroom, (walkLoop_unlimited hfull).1, ?_⟩
        intro hmore
        rw [decide_eq_true_eq]
        rintro rfl
        have hstop : frameStep u ips 0 = .stop ips := by
          unfold frameStep
          rw [if_pos rfl]
        rw [walkLoop, hstop] at hfull
        cases hfull
        exact absurd hmore (lt_irrefl _)

theorem rdCaptureCallchain_walk (th : Thread) {u : UserMem} {r : PtRegs}
    (huser : r.userMode = true) (hpc : r.pc ≠ 0) {chain : List U64} {cut : Bool}
    (hwalk : walkFrames u [r.pc] (r.regs 29) = (chain, cut)) :
    rdCaptureCallchain th u (some r) =
      (if cut then { th with callchainTruncated := th.callchainTruncated + 1 } else th, chain) := by
  have hon : ¬ (r.userMode = false ∨ r.pc = 0) := by
    rintro (h | h)
    · rw [huser] at h
      cases h
    · exact hpc h
  have hwalk' : walkFrames u [r.pc] (r.regs ⟨29, by decide⟩) = (chain, cut) := hwalk
  unfold rdCaptureCallchain
  simp only [if_neg hon, hwalk']
  cases cut <;> rfl

theorem chainOk_singleton {pc : U64} (hpc : pc ≠ 0) : ChainOk [pc] := by
  refine ⟨by simp, ?_, List.isChain_singleton pc⟩
  intro ip hip
  rw [List.mem_singleton.mp hip]
  exact hpc

/-- The loop ends for every memory, program counter and frame pointer. In user mode with a nonzero
program counter it collects the start of what it would collect without a limit: at least one
address and at most the limit, none zero and no two neighbours equal, and it counts a truncation
whenever there was more. -/
theorem callchain_capture :
    (∀ (u : UserMem) (pc fp : U64), ∃ r, ∀ n, 2 ^ 64 ≤ n →
      walkLoop u (some maxCallchainDepth) n [pc] fp = some r) ∧
    ∀ (th : Thread) (u : UserMem) (r : PtRegs), r.userMode = true → r.pc ≠ 0 →
      ∃ full cut,
        (∀ n, 2 ^ 64 ≤ n → walkLoop u (some maxCallchainDepth) n [r.pc] (r.regs 29) =
          some ((rdCaptureCallchain th u (some r)).2, cut)) ∧
        (∀ n, 2 ^ 64 ≤ n → walkLoop u none n [r.pc] (r.regs 29) = some (full, false)) ∧
        1 ≤ (rdCaptureCallchain th u (some r)).2.length ∧
        (rdCaptureCallchain th u (some r)).2.length ≤ maxCallchainDepth ∧
        (∀ ip ∈ (rdCaptureCallchain th u (some r)).2, ip ≠ 0) ∧
        (rdCaptureCallchain th u (some r)).2.IsChain (· ≠ ·) ∧
        (rdCaptureCallchain th u (some r)).2 =
          full.take (rdCaptureCallchain th u (some r)).2.length ∧
        ((rdCaptureCallchain th u (some r)).2.length < full.length →
          (rdCaptureCallchain th u (some r)).1.callchainTruncated = th.callchainTruncated + 1) := by
  refine ⟨fun u pc fp => exists_walkLoop u _ [pc] fp, ?_⟩
  intro th u r huser hpc
  obtain ⟨⟨chain, cut⟩, hchain⟩ := exists_walkLoop u (some maxCallchainDepth) [r.pc] (r.regs 29)
  obtain ⟨⟨full, flag⟩, hfull⟩ := exists_walkLoop u none [r.pc] (r.regs 29)
  have hwalk := walkLoop_limited (hchain _ le_rfl)
  have hflag : flag = false := (walkLoop_unlimited (hfull _ le_rfl)).2
  obtain ⟨hok, hdepth, hinit, hcut⟩ :=
    walkLoop_prefix (chainOk_singleton hpc) (by simp [maxCallchainDepth]) (hchain _ le_rfl)
      (hfull _ le_rfl)
  rw [hflag] at hfull
  rw [rdCaptureCallchain_walk th huser hpc hwalk]
  refine ⟨full, cut, hchain, hfull, ?_, hdepth, hok.nonzero, hok.adjacent, ?_, ?_⟩
  · exact List.length_pos_iff.mpr hok.nonempty
  · exact List.prefix_iff_eq_take.mp hinit
  · intro hmore
    obtain rfl : cut = true := hcut hmore
    rfl

/-- A stack of ten frame records from `0x2000` on, each sixteen bytes below its caller's. -/
def tenRecords : UserMem where
  byte a :=
    let base := a &&& ~~~0xF#64
    let offset := (a &&& 0xF).toNat
    let word := if 8 ≤ offset then 0x400000 + base else if base = 0x2090 then 0 else base + 16
    some ((word >>> (8 * (offset % 8))).setWidth 8)
  accessOk _ _ := true

/-- Of the eleven addresses on that stack the first eight are kept, and a truncation is counted. -/
theorem callchain_capture_records :
    (rdCaptureCallchain (allocThread ⟨7, 0, 0x1000, 8⟩) tenRecords (some smallRegs)).2 =
      [0x400200, 0x402000, 0x402010, 0x402020, 0x402030, 0x402040, 0x402050, 0x402060] ∧
    (rdCaptureCallchain (allocThread ⟨7, 0, 0x1000, 8⟩) tenRecords
      (some smallRegs)).1.callchainTruncated = 1 := by
  obtain ⟨full, cut, hchain, hfull, -, -, -, -, -, hmore⟩ := callchain_capture.2
    (allocThread ⟨7, 0, 0x1000, 8⟩) tenRecords smallRegs rfl (by decide)
  have height : walkLoop tenRecords (some maxCallchainDepth) 16 [smallRegs.pc] (smallRegs.regs 29) =
      some ([0x400200, 0x402000, 0x402010, 0x402020, 0x402030, 0x402040, 0x402050, 0x402060],
        true) := by decide
  have heleven : (walkLoop tenRecords none 16 [smallRegs.pc] (smallRegs.regs 29)).map
      (fun r => r.1.length) = some 11 := by decide
  obtain ⟨r, hr, hlen⟩ := Option.map_eq_some_iff.mp heleven
  have hkept := congrArg Prod.fst (Option.some.inj
    ((hchain (2 ^ 64) le_rfl).symm.trans (walkLoop_mono (by norm_num) height)))
  have hall := congrArg Prod.fst (Option.some.inj
    ((hfull (2 ^ 64) le_rfl).symm.trans (walkLoop_mono (by norm_num) hr)))
  dsimp only at hkept hall
  refine ⟨hkept, (hmore ?_).trans rfl⟩
  rw [hkept, hall, hlen]
  decide

end RdSpeTool
