import RdSpeTool.Meter

/-!
# What one hit can do to a meter

`bpHit_cases` and `wpHit_cases` list the outcomes of the two transitions on a meter whose cell
array has the configured length: nothing, a rejected candidate, an installed seed (which a failed
move turns into a drop), an ignored first hit, a drop, or a recorded reuse. Every invariant below
is a case analysis of these lists.
-/

namespace RdSpeTool

open ProbeTable

namespace Cell

def park (e : PerfEvent) (ret : ℤ) (x : Cell) : Cell := if ret = 0 then x.watch e else x

def unsampled (x : Cell) : Cell := { x with samples := 0 }

theorem unsampled_sampled (x : Cell) : x.sampled.unsampled = x.unsampled := by
  unfold sampled
  split_ifs <;> rfl

@[simp] theorem park_state (e : PerfEvent) (ret : ℤ) (x : Cell) : (x.park e ret).state = x.state := by
  unfold park
  split_ifs <;> rfl

@[simp] theorem park_samples (e : PerfEvent) (ret : ℤ) (x : Cell) :
    (x.park e ret).samples = x.samples := by
  unfold park
  split_ifs <;> rfl

end Cell

def Resampled (l l' : List Cell) : Prop := l'.map Cell.unsampled = l.map Cell.unsampled

namespace Resampled

variable {l l' : List Cell}

theorem length_eq (h : Resampled l l') : l'.length = l.length := by
  simpa using congrArg List.length h

theorem getElem? (h : Resampled l l') {j : ℕ} {y : Cell} (hy : l'[j]? = some y) :
    ∃ x, l[j]? = some x ∧ y.unsampled = x.unsampled := by
  have hj := congrArg (fun t : List Cell => t[j]?) h
  simp only [List.getElem?_map, hy, Option.map_some] at hj
  obtain ⟨x, hx, he⟩ := Option.map_eq_some_iff.mp hj.symm
  exact ⟨x, hx, he.symm⟩

theorem countP_state (h : Resampled l l') (p : WpState → Bool) :
    l'.countP (fun x => p x.state) = l.countP (fun x => p x.state) := by
  have hc := congrArg (List.countP fun x : Cell => p x.state) h
  rw [List.countP_map, List.countP_map] at hc
  exact hc

end Resampled

namespace Meter

variable (k : MeterCtl) (m : Meter)

theorem updateCell_updateCell (i : ℕ) (f g : Cell → Cell) :
    (m.updateCell i f).updateCell i g = m.updateCell i (g ∘ f) := by
  simp only [updateCell, List.modify_modify_eq]

theorem move_eq {i : ℕ} (hi : i < k.wpCapacity) (hl : i < m.cells.length) (addr : U64) (len : ℕ)
    (ret : ℤ) : m.move k i addr len ret =
      (m.updateCell i (Cell.park ⟨addr, len, k.running && m.active⟩ ret), ret) := by
  have hb : ¬ (i ≥ k.wpCapacity ∨ i ≥ m.cells.length) := by omega
  unfold move
  rw [if_neg hb]
  by_cases hr : ret = 0
  · subst hr
    rfl
  · rw [if_neg hr]
    have hid : Cell.park ⟨addr, len, k.running && m.active⟩ ret = id := by
      funext x
      simp [Cell.park, hr]
    simp [hid, updateCell]

theorem clearCell_eq {i : ℕ} (hi : i < k.wpCapacity) :
    m.clearCell k i = m.updateCell i Cell.clear := by
  unfold clearCell
  rw [if_neg (by omega)]

theorem replacePass_resampled (rng : U64) (cells : List Cell) :
    Resampled cells (replacePass rng cells).1 := by
  induction cells generalizing rng with
  | nil => rfl
  | cons x rest ih =>
      have hrest := ih (rdNextRandom rng).2
      unfold Resampled at hrest ⊢
      simp only [replacePass]
      split_ifs <;> simp [Cell.unsampled_sampled, hrest]

theorem replacePass_index (rng : U64) (cells : List Cell) (i : ℕ)
    (h : (replacePass rng cells).2.2 = some i) : i < cells.length := by
  induction cells generalizing rng i with
  | nil => simp [replacePass] at h
  | cons x rest ih =>
      have hnext : ∀ j, ((replacePass (rdNextRandom rng).2 rest).2.2.map (· + 1)) = some j →
          j < (x :: rest).length := by
        intro j hj
        obtain ⟨j', hj', rfl⟩ := Option.map_eq_some_iff.mp hj
        have := ih (rdNextRandom rng).2 j' hj'
        simp only [List.length_cons]
        omega
      simp only [replacePass] at h
      split_ifs at h
      · obtain rfl : 0 = i := by simpa using h
        simp
      · exact hnext i h
      · obtain rfl : 0 = i := by simpa using h
        simp
      · exact hnext i h

def resample (cells : List Cell) (rng : U64) : Meter := { m with cells := cells, rng := rng }

theorem read_eq_some {m : Meter} {reading : Option U64} {a : U64} (h : m.read reading = some a) :
    reading = some a := by
  unfold read at h
  split_ifs at h
  exact h

def AllArmed : Prop := ∀ x ∈ m.cells, x.state = .armed

/-- Outcomes of the slot choice: the first idle cell, or a pass over armed cells only. -/
theorem pick_cases (hk : 0 < k.wpCapacity) :
    (∃ i x, m.cells[i]? = some x ∧ x.state = .idle ∧
      m.pick k = (m.addSeen.addAccepted, some (i, false))) ∨
    (m.AllArmed ∧ ∃ cells rng, Resampled m.cells cells ∧
      ((∃ i < m.cells.length,
          m.pick k = ((m.addSeen.resample cells rng).addAccepted, some (i, true))) ∨
        m.pick k = ((m.addSeen.resample cells rng).addRejected, none))) := by
  unfold pick
  rw [if_neg (by omega)]
  cases hf : m.cells.findIdx? (fun x => x.state == .idle) with
  | some i =>
      obtain ⟨hi, hx, -⟩ := List.findIdx?_eq_some_iff_getElem.mp hf
      exact Or.inl ⟨i, m.cells[i], List.getElem?_eq_getElem hi, by simpa using hx, rfl⟩
  | none =>
      refine Or.inr ⟨?_, (replacePass m.rng m.cells).1, (replacePass m.rng m.cells).2.1,
        replacePass_resampled m.rng m.cells, ?_⟩
      · intro x hx
        have hne := List.findIdx?_eq_none_iff.mp hf x hx
        cases hs : x.state with
        | idle => simp [hs] at hne
        | armed => rfl
      · dsimp only
        cases hp : (replacePass m.rng m.cells).2.2 with
        | none => exact Or.inr rfl
        | some i => exact Or.inl ⟨i, replacePass_index _ _ i hp, rfl⟩

/-- A seed in cell `i`, with its hardware range or, after a failed move, dropped. -/
def seeded (i : ℕ) (target : Target) (targetIndex : ℕ) (seedVa seedAccess : U64) (env : HitEnv) :
    Meter :=
  if env.modRet = 0 then
    m.updateCell i fun x => (x.arm target targetIndex seedVa seedAccess).watch
      ⟨seedVa, target.decode.accessSize, k.running && m.active⟩
  else
    m.addDropped.updateCell i fun x => (x.arm target targetIndex seedVa seedAccess).clear.park
      ⟨x.idleAddr, idleWpLen, k.running && m.active⟩ env.idleRet

@[simp] theorem countEviction_cells (i : ℕ) (b : Bool) : (m.countEviction i b).cells = m.cells := by
  unfold countEviction
  split_ifs <;> rfl

theorem install_eq {i : ℕ} (hi : i < k.wpCapacity) (hl : i < m.cells.length) (b : Bool)
    (target : Target) (targetIndex : ℕ) (seedVa seedAccess : U64) (env : HitEnv) :
    m.install k i b target targetIndex seedVa seedAccess env =
      (m.countEviction i b).seeded k i target targetIndex seedVa seedAccess env := by
  generalize hm : m.countEviction i b = m1
  have hl1 : i < m1.cells.length := by rw [← hm, countEviction_cells]; exact hl
  have hl2 : ∀ f, i < (m1.updateCell i f).cells.length := by
    intro f
    simpa [updateCell] using hl1
  unfold install seeded
  dsimp only
  rw [hm]
  unfold settle
  rw [move_eq k _ hi (hl2 _)]
  dsimp only
  by_cases hr : env.modRet = 0
  · rw [if_neg (by simpa using hr), if_pos hr, hr, updateCell_updateCell]
    rfl
  · rw [if_pos hr, if_neg hr, clearCell_eq k _ hi]
    have hid : Cell.park ⟨seedVa, target.decode.accessSize, k.running && (m1.updateCell i
        (Cell.arm target targetIndex seedVa seedAccess)).active⟩ env.modRet = id := by
      funext x
      simp [Cell.park, hr]
    have hsame : ∀ g : Meter, g.updateCell i id = g := by
      intro g
      simp [updateCell]
    rw [hid, hsame]
    rw [move_eq k _ hi (by simpa [updateCell, addDropped] using hl1)]
    have hx := List.getElem?_eq_getElem hl1
    simp only [updateCell, addDropped, List.getElem?_modify_eq, List.modify_modify_eq, hx]
    congr 1
    exact modify_congr _ hx rfl

structure Sized : Prop where
  length_eq : m.cells.length = k.wpCapacity
  capacity_pos : 0 < k.wpCapacity

/-- A candidate that passes the guards of the breakpoint handler. -/
structure Admits (t : ℕ) (regs : Option PtRegs) (env : HitEnv) (r : PtRegs) (target : Target)
    (seedAccess : U64) : Prop where
  regs_eq : regs = some r
  target_eq : k.targets[t]? = some target
  active : m.active = true
  running : k.running = true
  read_eq : m.read env.memAccess = some seedAccess

variable {k m}

theorem bpHit_of_not_admits {t : ℕ} {regs : Option PtRegs} {env : HitEnv}
    (h : ∀ r target a, ¬ m.Admits k t regs env r target a) : m.bpHit k t regs env = m := by
  unfold bpHit
  cases regs with
  | none => rfl
  | some r =>
      cases ht : k.targets[t]? with
      | none => rfl
      | some target =>
          by_cases hoff : m.active = false ∨ k.running = false
          · simp only [if_pos hoff]
          · simp only [if_neg hoff]
            simp only [not_or, Bool.not_eq_false] at hoff
            cases hr : m.read env.memAccess with
            | none => rfl
            | some a => exact absurd ⟨rfl, ht, hoff.1, hoff.2, hr⟩ (h r target a)

theorem bpHit_of_admits {t : ℕ} {regs : Option PtRegs} {env : HitEnv} {r : PtRegs}
    {target : Target} {a : U64} (h : m.Admits k t regs env r target a) :
    m.bpHit k t regs env =
      match m.addCandidate.pick k with
      | (m, none) => m
      | (m, some (i, b)) =>
          if i ≥ k.wpCapacity then m.addRejected
          else m.install k i b target t (rdComputeEffectiveAddress target.decode r) a env := by
  obtain ⟨rfl, ht, hact, hrun, hr⟩ := h
  have hoff : ¬ (m.active = false ∨ k.running = false) := by simp [hact, hrun]
  unfold bpHit
  rw [ht]
  dsimp only
  rw [if_neg hoff]
  generalize m.read env.memAccess = reading at hr
  subst hr
  rfl

/-- Outcomes of an admitted candidate: the first idle cell takes it, a replaced cell takes it, or
it is rejected with every cell armed. -/
theorem bpHit_cases (hm : m.Sized k) {t : ℕ} {regs : Option PtRegs} {env : HitEnv} {r : PtRegs}
    {target : Target} {a : U64} (h : m.Admits k t regs env r target a) :
    (∃ i x, m.cells[i]? = some x ∧ x.state = .idle ∧ m.bpHit k t regs env =
      m.addCandidate.addSeen.addAccepted.seeded k i target t
        (rdComputeEffectiveAddress target.decode r) a env) ∨
    (m.AllArmed ∧ ∃ cells rng, Resampled m.cells cells ∧
      ((∃ i < m.cells.length, m.bpHit k t regs env =
          ((m.addCandidate.addSeen.resample cells rng).addAccepted.addEviction).seeded k i target t
            (rdComputeEffectiveAddress target.decode r) a env) ∨
        m.bpHit k t regs env = (m.addCandidate.addSeen.resample cells rng).addRejected)) := by
  rw [bpHit_of_admits h]
  rcases pick_cases k m.addCandidate hm.capacity_pos with ⟨i, x, hx, hidle, hp⟩ |
    ⟨harmed, cells, rng, hres, ⟨i, hi, hp⟩ | hp⟩
  · left
    have hlt : i < m.cells.length := (List.getElem?_eq_some_iff.mp hx).1
    have hcap : i < k.wpCapacity := hm.length_eq ▸ hlt
    refine ⟨i, x, hx, hidle, ?_⟩
    rw [hp]
    dsimp only
    rw [if_neg (by omega), install_eq k m.addCandidate.addSeen.addAccepted hcap hlt]
    simp [countEviction]
  · right
    refine ⟨harmed, cells, rng, hres, Or.inl ⟨i, hi, ?_⟩⟩
    have hcap : i < k.wpCapacity := hm.length_eq ▸ hi
    have hlt : i < cells.length := hres.length_eq ▸ hi
    obtain ⟨x, hx, he⟩ := hres.getElem? (List.getElem?_eq_getElem hlt)
    have hstate : cells[i].state = .armed :=
      (congrArg Cell.state he).trans (harmed x (List.mem_of_getElem? hx))
    rw [hp]
    dsimp only
    rw [if_neg (by omega),
      install_eq k (m.addCandidate.addSeen.resample cells rng).addAccepted hcap hlt]
    congr 1
    have hc : ((m.addCandidate.addSeen.resample cells rng).addAccepted.cells[i]?.map Cell.state) =
        some .armed := by
      change cells[i]?.map Cell.state = _
      rw [List.getElem?_eq_getElem hlt, Option.map_some, hstate]
    unfold countEviction
    rw [if_pos ⟨rfl, hc⟩]
  · right
    refine ⟨harmed, cells, rng, hres, Or.inr ?_⟩
    rw [hp]

def parkedCell (k : MeterCtl) (m : Meter) (i : ℕ) (idleRet : ℤ) : Meter :=
  m.updateCell i fun x =>
    x.clear.park ⟨x.idleAddr, idleWpLen, k.running && m.active⟩ idleRet

theorem retire_eq {i : ℕ} {x : Cell} (hi : i < k.wpCapacity) (hx : m.cells[i]? = some x)
    (harmed : x.state = .armed) (idleRet : ℤ) :
    m.retire k i x.idleAddr idleRet = m.parkedCell k i idleRet := by
  have hlt : i < m.cells.length := (List.getElem?_eq_some_iff.mp hx).1
  unfold retire parkedCell
  dsimp only
  rw [if_pos (by rw [hx, Option.map_some, harmed]), clearCell_eq k m hi,
    move_eq k _ hi (by simpa [updateCell] using hlt), updateCell_updateCell]
  simp only [updateCell]
  congr 1
  exact modify_congr _ hx rfl

/-- Outcomes of a watchpoint report: ignored, first hit skipped, seed dropped, or reuse recorded. -/
theorem wpHit_cases (hm : m.Sized k) (i : ℕ) (env : HitEnv) :
    (m.wpHit k i env = m ∧ (m.active = true → k.running = true →
      ∀ x, m.cells[i]? = some x → x.state = .idle)) ∨
    ∃ x, m.cells[i]? = some x ∧ x.state = .armed ∧ m.active = true ∧ k.running = true ∧
      ((x.skipFirstHit = true ∧ m.wpHit k i env = m.updateCell i Cell.skip) ∨
        (x.skipFirstHit = false ∧
          ((m.wpHit k i env = m.addDropped.parkedCell k i env.idleRet) ∨
            ∃ a, m.read env.memAccess = some a ∧ x.targetIndex < k.targets.length ∧
              m.wpHit k i env = (m.addBucket k x a).addHit.parkedCell k i env.idleRet))) := by
  by_cases hoff : m.active = false ∨ k.running = false ∨ i ≥ k.wpCapacity
  · left
    constructor
    · unfold wpHit
      rw [if_pos hoff]
    · intro hact hrun x hx
      have hlt : i < m.cells.length := (List.getElem?_eq_some_iff.mp hx).1
      have hcap := hm.length_eq
      simp only [hact, hrun, Bool.true_eq_false, false_or] at hoff
      omega
  · have hon : m.active = true ∧ k.running = true ∧ i < k.wpCapacity := by
      simpa [not_or] using hoff
    obtain ⟨hact, hrun, hi⟩ := hon
    have hlt : i < m.cells.length := hm.length_eq.symm ▸ hi
    have hx := List.getElem?_eq_getElem hlt
    generalize m.cells[i] = x at hx
    by_cases harmed : x.state = .armed
    · right
      refine ⟨x, hx, harmed, hact, hrun, ?_⟩
      by_cases hskip : x.skipFirstHit = true
      · left
        refine ⟨hskip, ?_⟩
        simp [wpHit, hoff, hx, harmed, hskip]
      · right
        refine ⟨by simpa using hskip, ?_⟩
        by_cases ht : x.targetIndex ≥ k.targets.length
        · left
          rw [← retire_eq (m := m.addDropped) hi hx harmed]
          simp [wpHit, hoff, hx, harmed, hskip, ht]
        · cases hr : m.read env.memAccess with
          | none =>
              left
              rw [← retire_eq (m := m.addDropped) hi hx harmed]
              simp [wpHit, hoff, hx, harmed, hskip, ht, hr]
          | some a =>
              right
              refine ⟨a, rfl, by omega, ?_⟩
              have hx' : (m.addBucket k x a).addHit.cells[i]? = some x := by
                unfold addBucket
                dsimp only
                split_ifs <;> exact hx
              rw [← retire_eq hi hx' harmed]
              simp [wpHit, hoff, hx, harmed, hskip, ht, hr]
    · left
      refine ⟨by simp [wpHit, hoff, hx, harmed], ?_⟩
      intro _ _ x' hx'
      obtain rfl : x = x' := Option.some.inj (hx.symm.trans hx')
      cases hs : x.state with
      | idle => rfl
      | armed => exact absurd hs harmed

/-! ## Effect on one cell -/

inductive BpStep (k : MeterCtl) (m : Meter) (t : ℕ) (regs : Option PtRegs) (env : HitEnv)
    (x y : Cell) : Prop
  | kept (h : y.unsampled = x.unsampled)
  | armed (r : PtRegs) (target : Target) (a : U64) (x' : Cell)
      (h : m.Admits k t regs env r target a) (hx : x'.unsampled = x.unsampled)
      (hy : y = (x'.arm target t (rdComputeEffectiveAddress target.decode r) a).watch
        ⟨rdComputeEffectiveAddress target.decode r, target.decode.accessSize, true⟩)
  | dropped (r : PtRegs) (target : Target) (a : U64) (x' : Cell)
      (h : m.Admits k t regs env r target a) (hx : x'.unsampled = x.unsampled)
      (hy : y = (x'.arm target t (rdComputeEffectiveAddress target.decode r) a).clear.park
        ⟨x'.idleAddr, idleWpLen, true⟩ env.idleRet)

theorem seeded_cell {t i j : ℕ} {regs : Option PtRegs} {env : HitEnv} {r : PtRegs}
    {target : Target} {a : U64} (h : m.Admits k t regs env r target a) {n : Meter}
    (hact : n.active = m.active) (hres : Resampled m.cells n.cells) {y : Cell}
    (hy : (n.seeded k i target t (rdComputeEffectiveAddress target.decode r) a env).cells[j]? =
      some y) : ∃ x, m.cells[j]? = some x ∧ BpStep k m t regs env x y := by
  have hon : (k.running && n.active) = true := by rw [hact, h.active, h.running]; rfl
  unfold seeded at hy
  rw [hon] at hy
  split_ifs at hy with hr
  · obtain ⟨x', hx', ⟨-, he⟩ | ⟨-, he⟩⟩ := getElem?_modify_cases hy
    · obtain ⟨x, hx, hu⟩ := hres.getElem? hx'
      exact ⟨x, hx, .armed r target a x' h hu he⟩
    · obtain ⟨x, hx, hu⟩ := hres.getElem? hx'
      exact ⟨x, hx, .kept (he ▸ hu)⟩
  · obtain ⟨x', hx', ⟨-, he⟩ | ⟨-, he⟩⟩ := getElem?_modify_cases hy
    · obtain ⟨x, hx, hu⟩ := hres.getElem? hx'
      exact ⟨x, hx, .dropped r target a x' h hu he⟩
    · obtain ⟨x, hx, hu⟩ := hres.getElem? hx'
      exact ⟨x, hx, .kept (he ▸ hu)⟩

theorem bpHit_cell (hm : m.Sized k) {t : ℕ} {regs : Option PtRegs} {env : HitEnv} {j : ℕ} {y : Cell}
    (hy : (m.bpHit k t regs env).cells[j]? = some y) :
    ∃ x, m.cells[j]? = some x ∧ BpStep k m t regs env x y := by
  by_cases hadm : ∃ r target a, m.Admits k t regs env r target a
  · obtain ⟨r, target, a, h⟩ := hadm
    rcases bpHit_cases hm h with ⟨i, x, -, -, he⟩ | ⟨-, cells, rng, hres, ⟨i, -, he⟩ | he⟩
    · rw [he] at hy
      exact seeded_cell (n := m.addCandidate.addSeen.addAccepted) h rfl rfl hy
    · rw [he] at hy
      exact seeded_cell (n := (m.addCandidate.addSeen.resample cells rng).addAccepted.addEviction) h
        rfl hres hy
    · rw [he] at hy
      obtain ⟨x, hx, hu⟩ := hres.getElem? hy
      exact ⟨x, hx, .kept hu⟩
  · rw [bpHit_of_not_admits (by simpa using hadm)] at hy
    exact ⟨y, hy, .kept rfl⟩

inductive WpStep (k : MeterCtl) (m : Meter) (i j : ℕ) (env : HitEnv) (x y : Cell) : Prop
  | kept (h : y = x) (hidle : j = i → m.active = true → k.running = true → x.state = .idle)
  | skipped (hj : j = i) (harmed : x.state = .armed) (hskip : x.skipFirstHit = true)
      (hy : y = x.skip)
  | freed (hj : j = i) (harmed : x.state = .armed) (hskip : x.skipFirstHit = false)
      (hy : y = x.clear.park ⟨x.idleAddr, idleWpLen, true⟩ env.idleRet)

theorem wpHit_cell (hm : m.Sized k) {i : ℕ} {env : HitEnv} {j : ℕ} {y : Cell}
    (hy : (m.wpHit k i env).cells[j]? = some y) :
    ∃ x, m.cells[j]? = some x ∧ WpStep k m i j env x y := by
  rcases wpHit_cases hm i env with ⟨he, hidle⟩ | ⟨x, hx, harmed, hact, hrun, hcase⟩
  · rw [he] at hy
    refine ⟨y, hy, .kept rfl ?_⟩
    rintro rfl hact hrun
    exact hidle hact hrun y hy
  · have hfreed : ∀ m' : Meter, m'.cells = m.cells → m'.active = m.active →
        x.skipFirstHit = false → (m'.parkedCell k i env.idleRet).cells[j]? = some y →
        ∃ x, m.cells[j]? = some x ∧ WpStep k m i j env x y := by
      intro m' hcells hact' hskip hy'
      unfold parkedCell updateCell at hy'
      rw [hcells, hact', hact, hrun] at hy'
      obtain ⟨x', hx', ⟨rfl, he⟩ | ⟨hne, he⟩⟩ := getElem?_modify_cases hy'
      · obtain rfl : x = x' := Option.some.inj (hx.symm.trans hx')
        exact ⟨x, hx', .freed rfl harmed hskip he⟩
      · exact ⟨x', hx', .kept he fun hj => absurd hj.symm hne⟩
    rcases hcase with ⟨hskip, he⟩ | ⟨hskip, he | ⟨a, -, -, he⟩⟩
    · rw [he] at hy
      obtain ⟨x', hx', ⟨rfl, he⟩ | ⟨hne, he⟩⟩ := getElem?_modify_cases hy
      · obtain rfl : x = x' := Option.some.inj (hx.symm.trans hx')
        exact ⟨x, hx', .skipped rfl harmed hskip he⟩
      · exact ⟨x', hx', .kept he fun hj => absurd hj.symm hne⟩
    · rw [he] at hy
      exact hfreed _ rfl rfl hskip hy
    · rw [he] at hy
      refine hfreed _ ?_ ?_ hskip hy
      · unfold addBucket
        dsimp only
        split_ifs <;> rfl
      · unfold addBucket
        dsimp only
        split_ifs <;> rfl

end Meter
end RdSpeTool
