import RdSpeTool.DwarfRecords

/-!
# What a stack snapshot holds

The chunk loop keeps the longest start of the wanted range that is readable chunk by chunk. Each
kept byte is the byte of user memory at its address, so a word read offline is the word the
program had there.
-/

namespace RdSpeTool

open ByteRecords

def ChunkReadable (u : UserMem) (sp : U64) (want j : ℕ) : Prop :=
  u.accessOk (sp + BitVec.ofNat 64 (256 * j)) (min 256 (want - 256 * j)) = true ∧
    ∀ i < min 256 (want - 256 * j), (u.byte (sp + BitVec.ofNat 64 (256 * j + i))).isSome

/-- `n` is the length of the longest readable start in whole chunks; the last one may be short. -/
structure LongestReadable (u : UserMem) (sp : U64) (want n : ℕ) : Prop where
  le_want : n ≤ want
  whole : 256 ∣ n ∨ n = want
  readable : ∀ j, 256 * j < n → ChunkReadable u sp want j
  longest : n < want → ¬ ChunkReadable u sp want (n / 256)

def Mirrors (u : UserMem) (sp : U64) (stack : List U8) : Prop :=
  ∀ i < stack.length, stack[i]? = u.byte (sp + BitVec.ofNat 64 i)

theorem mapM_eq_some_iff {α β : Type} {f : α → Option β} {l : List α} {r : List β} :
    l.mapM f = some r ↔ l.map f = r.map some := by
  induction l generalizing r with
  | nil => cases r <;> simp
  | cons a l ih =>
      cases r with
      | nil =>
          rw [List.mapM_cons]
          cases f a <;> cases l.mapM f <;> simp
      | cons b r =>
          rw [List.mapM_cons, List.map_cons, List.map_cons, List.cons.injEq, ← ih]
          cases f a <;> cases l.mapM f <;> simp

theorem UserMem.copy_eq_some_iff {u : UserMem} {addr : U64} {len : ℕ} {bytes : List U8} :
    u.copy addr len = some bytes ↔ bytes.length = len ∧ Mirrors u addr bytes := by
  unfold UserMem.copy Mirrors
  rw [mapM_eq_some_iff]
  constructor
  · intro h
    have hlen : bytes.length = len := by simpa using (congrArg List.length h).symm
    refine ⟨hlen, ?_⟩
    intro i hi
    have hget := congrArg (fun l => l[i]?) h
    simp only [List.getElem?_map, List.getElem?_range (hlen ▸ hi), Option.map_some] at hget
    rw [List.getElem?_eq_getElem hi] at hget ⊢
    exact (Option.some.inj hget).symm
  · rintro ⟨hlen, h⟩
    apply List.ext_getElem
    · simpa using hlen.symm
    · intro i hi hi'
      have hib : i < bytes.length := by simpa using hi'
      have hget := h i hib
      rw [List.getElem?_eq_getElem hib] at hget
      simpa using hget.symm

theorem UserMem.copy_isSome_iff {u : UserMem} {addr : U64} {len : ℕ} :
    (∃ bytes, u.copy addr len = some bytes) ↔
      ∀ i < len, (u.byte (addr + BitVec.ofNat 64 i)).isSome := by
  constructor
  · rintro ⟨bytes, h⟩ i hi
    obtain ⟨rfl, hmirror⟩ := UserMem.copy_eq_some_iff.mp h
    rw [← hmirror i hi, List.getElem?_eq_getElem hi]
    rfl
  · intro h
    refine ⟨(List.range len).map fun i => (u.byte (addr + BitVec.ofNat 64 i)).getD 0, ?_⟩
    rw [UserMem.copy, mapM_eq_some_iff, List.map_map]
    apply List.map_congr_left
    intro i hi
    obtain ⟨b, hb⟩ := Option.isSome_iff_exists.mp (h i (List.mem_range.mp hi))
    rw [Function.comp_apply, hb, Option.getD_some]

theorem Mirrors.append {u : UserMem} {sp : U64} {stack bytes : List U8} (h : Mirrors u sp stack)
    (hb : Mirrors u (sp + BitVec.ofNat 64 stack.length) bytes) : Mirrors u sp (stack ++ bytes) := by
  intro i hi
  rcases Nat.lt_or_ge i stack.length with hlt | hge
  · rw [List.getElem?_append_left hlt]
    exact h i hlt
  · rw [List.length_append] at hi
    rw [List.getElem?_append_right hge, hb (i - stack.length) (by omega), BitVec.add_assoc,
      ← BitVec.ofNat_add, Nat.add_sub_cancel' hge]

/-- The chunk at which the copy stands is readable exactly if its access check and copy succeed. -/
theorem chunkReadable_iff (u : UserMem) (sp : U64) (want : ℕ) {copied : ℕ} (hc : 256 ∣ copied) :
    ChunkReadable u sp want (copied / 256) ↔
      u.accessOk (sp + BitVec.ofNat 64 copied) (min 256 (want - copied)) = true ∧
        ∃ bytes, u.copy (sp + BitVec.ofNat 64 copied) (min 256 (want - copied)) = some bytes := by
  unfold ChunkReadable
  rw [Nat.mul_div_cancel' hc, UserMem.copy_isSome_iff]
  simp only [BitVec.ofNat_add, BitVec.add_assoc]

/-- The loop of `rd_copy_user_stack_snapshot`, from any point it can reach. -/
theorem copyChunks_spec {u : UserMem} {sp : U64} {want copied : ℕ} {stack : List U8}
    (hlen : stack.length = copied) (hle : copied ≤ want) (hwhole : 256 ∣ copied ∨ copied = want)
    (hread : ∀ j, 256 * j < copied → ChunkReadable u sp want j) (hmirror : Mirrors u sp stack) :
    LongestReadable u sp want (copyChunks u sp want copied stack).length ∧
      Mirrors u sp (copyChunks u sp want copied stack) := by
  induction hrest : want - copied using Nat.strongRecOn generalizing copied stack with
  | _ rest ih =>
      unfold copyChunks
      split_ifs with hlt
      · have hdvd : 256 ∣ copied := hwhole.resolve_right (by omega)
        have hchunk := chunkReadable_iff u sp want hdvd
        have hstop : ¬ ChunkReadable u sp want (copied / 256) →
            LongestReadable u sp want stack.length ∧ Mirrors u sp stack := by
          intro hno
          exact ⟨⟨hlen ▸ hle, hlen ▸ hwhole, hlen ▸ hread, fun _ => hlen ▸ hno⟩, hmirror⟩
        dsimp only
        split_ifs with hok
        · apply hstop
          rw [hchunk, hok]
          simp
        · cases hcopy : u.copy (sp + BitVec.ofNat 64 copied) (min 256 (want - copied)) with
          | none =>
              apply hstop
              rw [hchunk, hcopy]
              simp
          | some bytes =>
              obtain ⟨hbytes, hmem⟩ := UserMem.copy_eq_some_iff.mp hcopy
              have hnow : ChunkReadable u sp want (copied / 256) :=
                hchunk.mpr ⟨by simpa using hok, bytes, hcopy⟩
              refine ih _ ?_ ?_ ?_ ?_ ?_ (hmirror.append (hlen ▸ hmem)) rfl
              · omega
              · rw [List.length_append, hlen, hbytes]
              · omega
              · omega
              · intro j hj
                rcases Nat.lt_or_ge (256 * j) copied with hlow | hhigh
                · exact hread j hlow
                · obtain rfl : j = copied / 256 := by omega
                  exact hnow
      · have heq : copied = want := by omega
        refine ⟨⟨hlen ▸ hle, hlen ▸ hwhole, hlen ▸ hread, ?_⟩, hmirror⟩
        intro hno
        omega

theorem copyChunks_zero (u : UserMem) (sp : U64) (want : ℕ) :
    LongestReadable u sp want (copyChunks u sp want 0 []).length ∧
      Mirrors u sp (copyChunks u sp want 0 []) := by
  apply copyChunks_spec
  · rfl
  · exact Nat.zero_le want
  · exact Or.inl (dvd_zero 256)
  · intro j hj
    omega
  · intro i hi
    exact absurd hi (Nat.not_lt_zero i)

/-- The snapshot of a hit; it does not depend on the state of the thread. -/
def snapshotOf (c : SessionCtl) (u : UserMem) (regs : Option PtRegs) : DwarfSnapshot :=
  match regs with
  | none => .zero
  | some r =>
      if r.userMode = false then .zero
      else
        { regs := List.ofFn r.regs, sp := r.sp, pc := r.pc, pstate := r.pstate, stackBase := r.sp
          stack :=
            if min c.dwarfStackBytes maxDwarfStackBytes = 0 ∨ r.sp = 0 then []
            else copyChunks u r.sp (min c.dwarfStackBytes maxDwarfStackBytes) 0 [] }

theorem rdCaptureDwarfSnapshot_snd (c : SessionCtl) (th : Thread) (u : UserMem)
    (regs : Option PtRegs) : (rdCaptureDwarfSnapshot c th u regs).2 = snapshotOf c u regs := by
  unfold rdCaptureDwarfSnapshot snapshotOf rdCopyUserStackSnapshot
  cases regs with
  | none => rfl
  | some r =>
      dsimp only
      split_ifs <;> rfl

/-- A snapshot keeps the registers and the longest readable stack of a hit. -/
structure DwarfSnapshot.Captures (want : ℕ) (u : UserMem) (r : PtRegs) (s : DwarfSnapshot) :
    Prop where
  regs : s.regs = List.ofFn r.regs
  sp : s.sp = r.sp
  pc : s.pc = r.pc
  pstate : s.pstate = r.pstate
  stackBase : s.stackBase = r.sp
  size : LongestReadable u r.sp want s.stack.length
  bytes : Mirrors u r.sp s.stack

theorem snapshotOf_captures {c : SessionCtl} {u : UserMem} {r : PtRegs}
    (huser : r.userMode = true) (hsp : r.sp ≠ 0) (hpos : 1 ≤ c.dwarfStackBytes)
    (hmax : c.dwarfStackBytes ≤ maxDwarfStackBytes) :
    (snapshotOf c u (some r)).Captures c.dwarfStackBytes u r := by
  have hwant : ¬ (min c.dwarfStackBytes maxDwarfStackBytes = 0 ∨ r.sp = 0) := by
    rintro (h | h)
    · omega
    · exact hsp h
  unfold snapshotOf
  dsimp only
  rw [if_neg (by simp [huser]), if_neg hwant, min_eq_left hmax]
  obtain ⟨hsize, hbytes⟩ := copyChunks_zero u r.sp c.dwarfStackBytes
  exact ⟨rfl, rfl, rfl, rfl, rfl, hsize, hbytes⟩

theorem DwarfSnapshot.zero_inRange : DwarfSnapshot.zero.InRange :=
  ⟨List.length_replicate, Nat.zero_le _⟩

theorem snapshotOf_inRange (c : SessionCtl) (u : UserMem) (regs : Option PtRegs) :
    (snapshotOf c u regs).InRange := by
  unfold snapshotOf
  cases regs with
  | none => exact DwarfSnapshot.zero_inRange
  | some r =>
      dsimp only
      split_ifs with huser hwant
      · exact DwarfSnapshot.zero_inRange
      · exact ⟨List.length_ofFn, Nat.zero_le _⟩
      · obtain ⟨hsize, -⟩ := copyChunks_zero u r.sp (min c.dwarfStackBytes maxDwarfStackBytes)
        exact ⟨List.length_ofFn, hsize.le_want.trans (min_le_right _ _)⟩

/-! ## Reading words offline -/

structure Resolver.Snapshot.Shows (want : ℕ) (u : UserMem) (r : PtRegs) (snap : Resolver.Snapshot) :
    Prop where
  regs : snap.regs = (List.ofFn r.regs).map BitVec.toNat
  sp : snap.sp = r.sp.toNat
  pc : snap.pc = r.pc.toNat
  size : LongestReadable u r.sp want snap.stackSize
  readable : ∀ addr, (Resolver.readWord snap addr).isSome ↔
    (r.sp.toNat : ℤ) ≤ addr ∧ addr ≤ r.sp.toNat + snap.stackSize - 8
  word : ∀ addr v, Resolver.readWord snap addr = some v →
    (u.copy (BitVec.ofInt 64 addr) 8).map leValue = some v

theorem Mirrors.copy_eq {u : UserMem} {sp : U64} {stack : List U8} (h : Mirrors u sp stack) {k : ℕ}
    (hk : k + 8 ≤ stack.length) :
    u.copy (sp + BitVec.ofNat 64 k) 8 = some ((stack.drop k).take 8) := by
  have hlen : ((stack.drop k).take 8).length = 8 := by
    rw [List.length_take, List.length_drop]
    omega
  rw [UserMem.copy_eq_some_iff]
  refine ⟨hlen, ?_⟩
  intro i hi
  rw [hlen] at hi
  rw [List.getElem?_take_of_lt hi, List.getElem?_drop, h (k + i) (by omega), BitVec.add_assoc,
    ← BitVec.ofNat_add]

theorem ofInt_add_natCast (sp : U64) (k : ℕ) :
    BitVec.ofInt 64 ((sp.toNat : ℤ) + k) = sp + BitVec.ofNat 64 k := by
  rw [← Nat.cast_add, BitVec.ofInt_natCast, BitVec.ofNat_add, BitVec.ofNat_toNat,
    BitVec.setWidth_eq]

theorem DwarfSnapshot.Captures.shows {want : ℕ} {u : UserMem} {r : PtRegs} {s : DwarfSnapshot}
    (h : s.Captures want u r) (slack : ℕ → U8) : (s.offline slack).Shows want u r := by
  refine ⟨congrArg (List.map BitVec.toNat) h.regs, congrArg BitVec.toNat h.sp,
    congrArg BitVec.toNat h.pc, h.size, ?_, ?_⟩
  · intro addr
    simp only [Resolver.readWord, DwarfSnapshot.offline, h.stackBase]
    split_ifs with hout
    · simp only [Option.isSome_none, Bool.false_eq_true, false_iff]
      omega
    · simp only [Option.isSome_some, true_iff]
      omega
  · intro addr v hv
    simp only [Resolver.readWord, DwarfSnapshot.offline, h.stackBase] at hv
    split_ifs at hv with hout
    obtain ⟨k, rfl⟩ : ∃ k : ℕ, addr = r.sp.toNat + k :=
      ⟨(addr - r.sp.toNat).toNat, by omega⟩
    have hk : k + 8 ≤ s.stack.length := by omega
    have hoff : ((r.sp.toNat : ℤ) + k - r.sp.toNat).toNat = k := by omega
    rw [ofInt_add_natCast, h.bytes.copy_eq hk, Option.map_some, ← hv, hoff,
      List.drop_append_of_le_length (by omega), List.take_append_of_le_length]
    rw [List.length_drop]
    omega

end RdSpeTool
