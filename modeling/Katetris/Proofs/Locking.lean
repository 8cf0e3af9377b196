import Katetris.Proofs.Descent

set_option autoImplicit false

/-! # Locking

`block_add` runs from two places: the floor test, on the box of the spawn orientation, and
`block_collides`, on the current one. Neither looks at the cells the piece itself is on. Two results
about every lock of every run: it is supported, except for a West piece at the floor with nothing
beneath it and for a piece that has left the grid (`locksSupported_iff`); and it adds four new cells as
long as the moves nothing guards do no harm, because `block_collides` guards all others
(`locksCleanly_of_not_movesBlindly`). Between them, for every shape and grid, what `block_collides` says
about a lock one row further down (`collisionPredicts`). -/

namespace Katetris

open Lib

/-! ## Support -/

/-- Nothing in the grid is directly beneath a cell of the piece. -/
def NothingBeneath (blk : Block) (grid : Grid) : Prop :=
  ∀ cell ∈ blk.cells, ¬Grid.Cell grid (cell.1 + 1) cell.2

/-- Some cell of the piece is in row 29 or has an occupied cell directly beneath it. -/
def Supported (blk : Block) (grid : Grid) : Prop :=
  ∃ cell ∈ blk.cells, cell.1 = 29 ∨ Grid.Cell grid (cell.1 + 1) cell.2

instance (blk : Block) (grid : Grid) : Decidable (NothingBeneath blk grid) :=
  inferInstanceAs (Decidable (∀ cell ∈ blk.cells, _))

instance (blk : Block) (grid : Grid) : Decidable (Supported blk grid) :=
  inferInstanceAs (Decidable (∃ cell ∈ blk.cells, _))

/-- A piece about to be locked is supported. -/
def LocksSupported (s : Main) : Prop := s.pc = .lock → Supported s.blk s.grid

/-- The floor test is about to lock a West piece over nothing, or `block_collides` is about to
    return true for a piece that is wholly below the grid. -/
def LocksInAir (s : Main) : Label → Prop
  | .main env =>
      (s.pc = .floorTest ∧ s.blk.ori = .west ∧ s.blk.x = 27 ∧ NothingBeneath s.blk s.grid)
        ∨ (s.pc = .collides ∧ blockCollides env.oob s.blk s.grid = true
          ∧ ∀ cell ∈ s.blk.cells, 30 ≤ cell.1)
  | .video => False

/-- At the floor every orientation but West has a cell in the last row. -/
theorem supported_at_floor {blk : Block} (h : blk.ptrs = patternsGamma) (hx : blk.x = 27)
    (grid : Grid) : Supported blk grid ↔ ¬(blk.ori = .west ∧ NothingBeneath blk grid) := by
  refine ⟨fun hsup hair => ?_, fun hno => ?_⟩
  · obtain ⟨hwest, hnothing⟩ := hair
    obtain ⟨cell, hcell, hrow | hbeneath⟩ := hsup
    · obtain ⟨o, ho, hr, -⟩ := (Block.cell_gamma h).1 hcell
      rw [hwest] at ho
      simp only [gammaOffsets, List.mem_cons, List.not_mem_nil, or_false] at ho
      rcases ho with rfl | rfl | rfl | rfl <;> simp only at hr <;> omega
    · exact hnothing cell hcell hbeneath
  · by_cases hwest : blk.ori = .west
    · have hsome : ¬NothingBeneath blk grid := fun hnothing => hno ⟨hwest, hnothing⟩
      simp only [NothingBeneath, not_forall, not_not] at hsome
      obtain ⟨cell, hcell, hbeneath⟩ := hsome
      exact ⟨cell, hcell, Or.inr hbeneath⟩
    · -- the cell with offset (2, 0) is in row 29
      refine ⟨(blk.x + 2, blk.y), (Block.cell_gamma h).2 ⟨(2, 0), ?_, by simp, by simp⟩, Or.inl ?_⟩
      · revert hwest
        cases blk.ori <;> simp [gammaOffsets]
      · simp only
        omega

/-- The rows of a gamma piece are consecutive: with a cell below row 29 and none in it, the whole
    piece is below. -/
theorem rows_ge_of_no_cell_in_last {blk : Block} (h : blk.ptrs = patternsGamma)
    (hno : ∀ cell ∈ blk.cells, cell.1 ≠ 29) {cell : Int × Int} (hcell : cell ∈ blk.cells)
    (hrow : 30 ≤ cell.1) : ∀ cell ∈ blk.cells, 30 ≤ cell.1 := by
  rw [Block.cells_gamma h] at hno hcell ⊢
  revert hno hcell
  cases blk.ori <;>
    simp only [gammaOffsets, List.map_cons, List.map_nil, List.mem_cons, List.not_mem_nil,
      or_false] <;>
    rintro hno (rfl | rfl | rfl | rfl) <;> simp_all <;> omega

/-- A hit of `block_collides` is a cell with an occupied one beneath it, or in row 29 or below. -/
theorem supported_at_hit {blk : Block} (h : blk.ptrs = patternsGamma) (hfits : blk.Fits)
    (hx : 0 ≤ blk.x) {oob : Int → BitVec 32} {grid : Grid}
    (hhit : blockCollides oob blk grid = true) :
    Supported blk grid ↔ ¬∀ cell ∈ blk.cells, 30 ≤ cell.1 := by
  refine ⟨fun hsup hall => ?_, fun hnot => ?_⟩
  · obtain ⟨cell, hcell, hrow | hbeneath⟩ := hsup
    · have := hall cell hcell
      omega
    · have := hall cell hcell
      have := hbeneath.row_lt
      omega
  · obtain ⟨r, c, hcell, hbit⟩ := (blockCollides_iff hfits.shifts).1 hhit
    obtain ⟨i, j, -, -, -, hr, hc⟩ := Block.cell_iff.1 hcell
    have hy := hfits.y_nonneg
    by_cases hin : r + 1 < 30
    · rw [Grid.read_of_mem oob grid ⟨by omega, hin⟩] at hbit
      exact ⟨(r, c), hcell, Or.inr ⟨by simp only; omega, by simp only; omega, hbit⟩⟩
    · by_contra hunsup
      have hno : ∀ cell ∈ blk.cells, cell.1 ≠ 29 :=
        fun cell hmem h29 => hunsup ⟨cell, hmem, Or.inl h29⟩
      have hrow : r ≠ 29 := hno (r, c) hcell
      exact hnot (rows_ge_of_no_cell_in_last h hno hcell (by simp only; omega))

theorem locksSupported_step (cfg : Config) (s : Main) (l : Label) (h : Motion s)
    (hs : LocksSupported s) : LocksSupported (step cfg s l) ↔ ¬LocksInAir s l := by
  apply step_cases (motive := fun s' => LocksSupported s' ↔ ¬LocksInAir s l) cfg s l
  case floorHit =>
      intro env hlabel hpc hfloor
      subst hlabel
      have hx := h.atFloor_iff.1 hfloor
      have hair : LocksInAir s (.main env) ↔ s.blk.ori = .west ∧ NothingBeneath s.blk s.grid := by
        simp [LocksInAir, hpc, hx]
      rw [hair, ← supported_at_floor h.gamma hx]
      exact ⟨fun hlock => hlock rfl, fun hsup _ => hsup⟩
  case hit =>
      intro env hlabel hpc hhit
      subst hlabel
      have hair : LocksInAir s (.main env) ↔ ∀ cell ∈ s.blk.cells, 30 ≤ cell.1 := by
        simp [LocksInAir, hpc, hhit]
      rw [hair, ← supported_at_hit h.gamma h.fits h.x_nonneg hhit]
      exact ⟨fun hlock => hlock rfl, fun hsup _ => hsup⟩
  case floorMiss =>
      intro env hlabel hpc hfloor
      subst hlabel
      rw [h.atFloor_iff] at hfloor
      refine iff_of_true (fun hlock => ?_) (fun hair => ?_)
      · contradiction
      · simp [LocksInAir, hpc, hfloor] at hair
  case miss =>
      intro env hlabel hpc hmiss
      subst hlabel
      refine iff_of_true (fun hlock => ?_) (fun hair => ?_)
      · contradiction
      · simp [LocksInAir, hpc, hmiss] at hair
  case quiet =>
      intro hlabel
      subst hlabel
      exact iff_of_true hs (fun hair => hair)
  case video =>
      intro hlabel _ _
      subst hlabel
      exact iff_of_true hs (fun hair => hair)
  case moved =>
      intro env hlabel hpc _
      subst hlabel
      refine iff_of_true (fun hlock => ?_) (fun hair => by simp [LocksInAir, hpc] at hair)
      exact absurd hlock (afterMove_ne cfg (by decide))
  case paint =>
      intro env hlabel hpc
      subst hlabel
      refine iff_of_true (fun hlock => ?_) (fun hair => by simp [LocksInAir, hpc] at hair)
      exact absurd hlock (afterPaint_ne cfg (by decide))
  all_goals
    intros
    refine iff_of_true (fun hlock => ?_) (fun hair => ?_)
    · contradiction
    · simp_all [LocksInAir]

/-- **A lock is supported exactly when it is not one of these two.** Over every run: every piece
    that is locked has a cell in the last row or on top of an occupied cell, if and only if no step
    locks a West piece at the floor over nothing or a piece below the grid. -/
theorem locksSupported_iff (cfg : Config) (t0 : BitVec 32) (screen : Screen) (ls : List Label) :
    AllStates (step cfg) LocksSupported (start t0 screen) ls ↔
      AllSteps (step cfg) (fun s l => ¬LocksInAir s l) (start t0 screen) ls := by
  refine allStates_iff_allSteps (I := Motion) (L := fun _ _ => True)
    (fun s l h _ _ _ => h.step cfg s l) (fun s l h hs _ => locksSupported_step cfg s l h hs)
    (motion_start t0 screen) ?_ (AllSteps.of_forall (fun _ _ => trivial) _ ls)
  intro hlock
  exact absurd hlock (by simp [start])

/-- Three turns to West and a fall to row 27; the next floor test locks the piece with row 29 empty
    beneath it. -/
def westAtFloor : List Label :=
  turn [.enter] 0 ++ turn [.enter] 0 ++ turn [.enter] 0 ++ drops 0 27 ++ (turn [] 27000).take 2

theorem westAtFloor_in_air :
    ¬AllStates (step sitlConfig) LocksSupported (start 0 .blank) westAtFloor := by
  intro h
  have hsup := h.last (by decide +kernel)
  exact absurd hsup (by decide +kernel)

/-! ## Overlap -/

/-- Every cell of the piece is a free cell of the grid. -/
def FitsFree (blk : Block) (grid : Grid) : Prop :=
  ∀ cell ∈ blk.cells, 0 ≤ cell.1 ∧ cell.1 < 30 ∧ ¬Grid.Cell grid cell.1 cell.2

instance (blk : Block) (grid : Grid) : Decidable (FitsFree blk grid) :=
  inferInstanceAs (Decidable (∀ cell ∈ blk.cells, _))

/-- The occupied cells of the grid. -/
def Grid.occupied (grid : Grid) : Finset (Int × Int) :=
  (intRange 0 30 ×ˢ intRange 0 32).toFinset.filter fun rc => Grid.Cell grid rc.1 rc.2

theorem Grid.mem_occupied {grid : Grid} {rc : Int × Int} :
    rc ∈ Grid.occupied grid ↔ Grid.Cell grid rc.1 rc.2 := by
  obtain ⟨r, c⟩ := rc
  simp only [Grid.occupied, Finset.mem_filter, List.mem_toFinset, List.mem_product, mem_intRange,
    and_iff_right_iff_imp]
  intro hcell
  refine ⟨⟨hcell.1, hcell.row_lt⟩, hcell.2.1, ?_⟩
  by_contra hc
  have hbit := hcell.2.2
  rw [BitVec.getLsbD_of_ge _ _ (by omega)] at hbit
  exact absurd hbit (by simp)

theorem Block.cells_nodup (blk : Block) : blk.cells.Nodup := by
  refine List.nodup_flatMap.2 ⟨fun i _ => ?_, ?_⟩
  · refine List.nodup_range.filterMap ?_
    intro j j' cell hcell hcell'
    simp only [Option.mem_def, Option.ite_none_right_eq_some, Option.some.injEq] at hcell hcell'
    have hcol := congrArg Prod.snd (hcell.2.trans hcell'.2.symm)
    simp only at hcol
    omega
  · refine List.nodup_range.imp fun hne cell hcell hcell' => ?_
    simp only [List.mem_filterMap, Option.ite_none_right_eq_some, Option.some.injEq] at hcell hcell'
    obtain ⟨j, -, -, rfl⟩ := hcell
    obtain ⟨j', -, -, heq⟩ := hcell'
    have hrow := congrArg Prod.fst heq
    simp only at hrow
    exact hne (by omega)

theorem card_cells (blk : Block) : blk.cells.toFinset.card = blk.cells.length :=
  List.toFinset_card_of_nodup blk.cells_nodup

theorem length_cells_gamma {blk : Block} (h : blk.ptrs = patternsGamma) : blk.cells.length = 4 := by
  rw [Block.cells_gamma h, List.length_map]
  cases blk.ori <;> rfl

/-- `block_add` inside the grid is a union of cells. -/
theorem occupied_blockAdd {blk : Block} (h : blk.Fits) (hrows : blk.InRows) (grid : Grid) :
    Grid.occupied (blockAdd blk grid) = Grid.occupied grid ∪ blk.cells.toFinset := by
  ext rc
  rw [Finset.mem_union, Grid.mem_occupied, Grid.mem_occupied, List.mem_toFinset, blockAdd_cell h]
  exact or_congr_right ⟨fun hcell => hcell.1, fun hcell => ⟨hcell, hrows rc hcell⟩⟩

theorem disjoint_occupied_iff {blk : Block} {grid : Grid} :
    Disjoint (Grid.occupied grid) blk.cells.toFinset ↔ ¬Overlaps blk grid := by
  rw [Finset.disjoint_right]
  simp only [List.mem_toFinset, Grid.mem_occupied, Overlaps, not_exists, not_and]

/-- **A piece on free cells adds exactly its four cells to the grid.** -/
theorem card_occupied_blockAdd {blk : Block} (h : blk.ptrs = patternsGamma) (hfits : blk.Fits)
    {grid : Grid} (hfree : FitsFree blk grid) :
    (Grid.occupied (blockAdd blk grid)).card = (Grid.occupied grid).card + 4 := by
  have hrows : blk.InRows := fun cell hcell => ⟨(hfree cell hcell).1, (hfree cell hcell).2.1⟩
  have hdisjoint : Disjoint (Grid.occupied grid) blk.cells.toFinset := by
    rw [disjoint_occupied_iff]
    intro hover
    obtain ⟨cell, hcell, hocc⟩ := hover
    exact (hfree cell hcell).2.2 hocc
  rw [occupied_blockAdd hfits hrows, Finset.card_union_of_disjoint hdisjoint, card_cells,
    length_cells_gamma h]

/-! ## The collision test and the lock -/

/-- `block_collides` says whether the piece one row down would overlap the grid, which is whether
    locking it there would add fewer cells than it has; and `block_add` changes nothing but bits it
    adds to the three rows of the pattern. -/
structure CollisionPredicts (oob : Int → BitVec 32) (blk : Block) (grid : Grid) : Prop where
  overlap : blockCollides oob blk grid = true ↔ Overlaps blk.down grid
  count : blockCollides oob blk grid = true ↔
    (Grid.occupied (blockAdd blk.down grid)).card < (Grid.occupied grid).card + blk.cells.length
  otherRows : ∀ r : Nat, (r : Int) < blk.x ∨ blk.x + 2 < r →
    rowAt (blockAdd blk grid) r = rowAt grid r
  keepsBits : ∀ r c : Nat, (rowAt grid r).getLsbD c = true →
    (rowAt (blockAdd blk grid) r).getLsbD c = true

theorem card_occupied_blockAdd_lt {blk : Block} (h : blk.Fits) (hrows : blk.InRows) (grid : Grid) :
    (Grid.occupied (blockAdd blk grid)).card < (Grid.occupied grid).card + blk.cells.length ↔
      Overlaps blk grid := by
  have hle := Finset.card_union_le (Grid.occupied grid) blk.cells.toFinset
  have heq := Finset.card_union_eq_card_add_card (s := Grid.occupied grid) (t := blk.cells.toFinset)
  rw [disjoint_occupied_iff] at heq
  rw [occupied_blockAdd h hrows, ← card_cells]
  rw [lt_iff_le_and_ne, and_iff_right hle, ne_eq, heq, not_not]

theorem rowAt_blockAdd_of_outside (blk : Block) (grid : Grid) {r : Nat}
    (hr : (r : Int) < blk.x ∨ blk.x + 2 < r) : rowAt (blockAdd blk grid) r = rowAt grid r := by
  by_cases h30 : r < 30
  · apply BitVec.eq_of_getLsbD_eq
    intro c _
    rw [Bool.eq_iff_iff, rowAt_blockAdd blk grid r h30 c, or_iff_left_iff_imp]
    intro hadded
    obtain ⟨i, hi, hrow, -⟩ := hadded
    omega
  · rw [rowAt_eq_zero _ (by omega), rowAt_eq_zero _ (by omega)]

theorem down_inRows {blk : Block} (hx : 0 ≤ blk.x ∧ blk.x ≤ 26) : blk.down.InRows := by
  intro cell hmem
  obtain ⟨i, j, hi, -, -, hr, -⟩ := Block.cell_iff.1 hmem
  simp only [Block.down] at hr
  omega

/-- **The collision test predicts the lock**, for every shape, grid and position from which the row
    below is in the grid. -/
theorem collisionPredicts (oob : Int → BitVec 32) {blk : Block} (h : blk.Fits)
    (hx : 0 ≤ blk.x ∧ blk.x ≤ 26) (grid : Grid) : CollisionPredicts oob blk grid where
  overlap := by
    refine blockCollides_iff_overlaps oob h.shifts ?_
    exact down_inRows hx
  count := by
    have hfits : blk.down.Fits := ⟨h.small, h.y_nonneg, h.y_le⟩
    have hlength : blk.down.cells.length = blk.cells.length := by
      rw [Block.cells_down, List.length_map]
    rw [blockCollides_iff_overlaps oob h.shifts (down_inRows hx), ← hlength,
      card_occupied_blockAdd_lt hfits (down_inRows hx)]
  otherRows := fun r hr => rowAt_blockAdd_of_outside blk grid hr
  keepsBits := by
    intro r c hbit
    by_cases h30 : r < 30
    · exact (rowAt_blockAdd blk grid r h30 c).2 (Or.inl hbit)
    · rw [rowAt_eq_zero grid (by omega)] at hbit
      exact absurd hbit (by simp)

/-- A domino one row above a single occupied cell. -/
theorem collisionPredicts_domino :
    CollisionPredicts (fun _ => 0) ⟨fun _ => #v[0b000, 0b011, 0b000], .north, 26, 28⟩
      (gridClear.setIfInBounds 28 0x10000000) :=
  collisionPredicts _ ⟨small_of_rows (by decide), by decide, by decide⟩ (by decide) _

/-! ## Merging -/

/-- A piece about to be locked shares no cell with the grid, and locking it adds four cells. -/
def LocksCleanly (s : Main) : Prop :=
  s.pc = .lock → (∀ cell ∈ s.blk.cells, ¬Grid.Cell s.grid cell.1 cell.2)
    ∧ (Grid.occupied (blockAdd s.blk s.grid)).card = (Grid.occupied s.grid).card + 4

/-- The piece that is spawned is on free cells once the full rows are gone. -/
def SpawnsFree (s : Main) : Label → Prop
  | .main _ => s.pc = .clearRows → FitsFree blockGamma (clearRows s.grid s.score).1
  | .video => True

instance (s : Main) : (l : Label) → Decidable (SpawnsFree s l)
  | .main _ => inferInstanceAs (Decidable (_ → _))
  | .video => inferInstanceAs (Decidable True)

/-- The place in which `block_collides` last found the piece with nothing occupied beneath it; a lock
    makes that void. -/
def lastClear (seen : Option Block) (s : Main) : Label → Option Block
  | .main env =>
      if s.pc = .collides ∧ blockCollides env.oob s.blk s.grid = false then some s.blk
      else if s.pc = .lock then none
      else seen
  | .video => seen

/-- LEFT, RIGHT or ENTER take the piece, with DOWN if that is pressed too, onto an occupied cell. -/
def AsideOnto (s : Main) : Label → Prop
  | .main env => s.pc = .loop ∧ MovesAside env.buttons s.blk
      ∧ Overlaps (s.blk.moved (downwards env.buttons s.blk) (sideways env.buttons s.blk)
          (env.buttons .enter)) s.grid
  | .video => False

/-- The step takes the piece one row straight down: DOWN alone does, or gravity. -/
def Descends (s : Main) : Label → Prop
  | .main env => s.pc = .loop ∧ ¬MovesAside env.buttons s.blk ∧ env.buttons .down = true ∧ DownFits s.blk
      ∨ s.pc = .gravity ∧ gravityFires s env
  | .video => False

/-- The piece goes straight down onto an occupied cell, from a place that `block_collides` has not looked
    at: it was spawned, moved or turned since. -/
def DescendsUnseen (w : Option Block × Main) (l : Label) : Prop :=
  Descends w.2 l ∧ w.1 ≠ some w.2.blk ∧ Overlaps w.2.blk.down w.2.grid

/-- A move that no test guards does harm. -/
def MovesBlindly (w : Option Block × Main) (l : Label) : Prop :=
  OvershootsFloor w.2 l ∨ AsideOnto w.2 l ∨ DescendsUnseen w l

instance (s : Main) : (l : Label) → Decidable (AsideOnto s l)
  | .main _ => inferInstanceAs (Decidable (_ ∧ _ ∧ _))
  | .video => inferInstanceAs (Decidable False)

instance (s : Main) : (l : Label) → Decidable (Descends s l)
  | .main _ => inferInstanceAs (Decidable (_ ∧ _ ∧ _ ∧ _ ∨ _ ∧ _))
  | .video => inferInstanceAs (Decidable False)

instance (w : Option Block × Main) (l : Label) : Decidable (MovesBlindly w l) :=
  inferInstanceAs (Decidable (_ ∨ _ ∨ _ ∧ _ ∧ _))

/-- The piece is inside the grid and on free cells, except between the lock and the clearing loop, where
    it is the spawned one; and the cells beneath the place that was last seen to be clear are free. -/
structure OnFreeCells (w : Option Block × Main) : Prop where
  floor : OnFloor w.2
  spawned : w.2.pc = .clearRows → w.1 = none ∧ w.2.blk = blockGamma
  free : w.2.pc ≠ .clearRows → ¬Overlaps w.2.blk w.2.grid
  seen : ∀ blk, w.1 = some blk → ¬Overlaps blk.down w.2.grid

theorem OnFreeCells.locksCleanly {w : Option Block × Main} (h : OnFreeCells w) : LocksCleanly w.2 := by
  intro hlock
  have hdisjoint : ∀ cell ∈ w.2.blk.cells, ¬Grid.Cell w.2.grid cell.1 cell.2 :=
    fun cell hcell hocc => h.free (by simp [hlock]) ⟨cell, hcell, hocc⟩
  have hrows : w.2.blk.InRows :=
    Block.inRows_gamma h.floor.motion.gamma h.floor.motion.x_nonneg h.floor.x_le
  exact ⟨hdisjoint, card_occupied_blockAdd h.floor.motion.gamma h.floor.motion.fits
    fun cell hcell => ⟨(hrows cell hcell).1, (hrows cell hcell).2, hdisjoint cell hcell⟩⟩

/-- **A straight step down is guarded by the last call of `block_collides`.** -/
theorem OnFreeCells.not_overlaps_down {w : Option Block × Main} (h : OnFreeCells w) {l : Label}
    (hl : ¬MovesBlindly w l) (hdown : Descends w.2 l) : ¬Overlaps w.2.blk.down w.2.grid := by
  intro hover
  by_cases hseen : w.1 = some w.2.blk
  · exact h.seen _ hseen hover
  · exact hl (Or.inr (Or.inr ⟨hdown, hseen, hover⟩))

/-- The buttons leave the piece on free cells. -/
theorem OnFreeCells.not_overlaps_buttons {w : Option Block × Main} (h : OnFreeCells w) {env : Env}
    (hl : ¬MovesBlindly w (.main env)) (hpc : w.2.pc = .loop) :
    ¬Overlaps (buttonsDoAction w.2.blk env.buttons).1 w.2.grid := by
  by_cases haside : MovesAside env.buttons w.2.blk
  · intro hover
    rw [buttonsDoAction_eq_moved] at hover
    exact hl (Or.inr (Or.inl ⟨hpc, haside, hover⟩))
  · rw [buttonsDoAction_of_not_movesAside haside]
    split_ifs with hdown
    · exact h.not_overlaps_down hl (Or.inl ⟨hpc, haside, hdown⟩)
    · exact h.free (by simp [hpc])

theorem onFreeCells_step (cfg : Config) (w : Option Block × Main) (l : Label) (h : OnFreeCells w)
    (hl : SpawnsFree w.2 l ∧ ¬MovesBlindly w l) : OnFreeCells (watch (step cfg) lastClear w l) := by
  obtain ⟨hspawn, hblind⟩ := hl
  obtain ⟨seen, s⟩ := w
  refine ⟨h.floor.step cfg s l fun hover => hblind (Or.inl hover), ?_, ?_, ?_⟩
  · apply step_cases (motive := fun s' => s'.pc = .clearRows →
      lastClear seen s l = none ∧ s'.blk = blockGamma) cfg s l
    case lock =>
        intro env hlabel hpc _
        subst hlabel
        exact ⟨by simp [lastClear, hpc], rfl⟩
    case video =>
        intro _ _ hpc hclear
        have hclear' : s.pc = .clearRows := hclear
        rcases hpc with hpc | hpc <;> simp [hpc] at hclear'
    case quiet =>
        intro hlabel
        subst hlabel
        exact h.spawned
    case moved =>
        intro env _ _ _ hclear
        exact absurd hclear (afterMove_ne cfg (by decide))
    case paint =>
        intro env _ _ hclear
        exact absurd hclear (afterPaint_ne cfg (by decide))
    all_goals
      intros
      contradiction
  · apply step_cases (motive := fun s' => s'.pc ≠ .clearRows → ¬Overlaps s'.blk s'.grid) cfg s l
    case moved =>
        intro env hlabel hpc _ _
        subst hlabel
        exact h.not_overlaps_buttons hblind hpc
    case idle =>
        intro env hlabel hpc _ _
        subst hlabel
        exact h.not_overlaps_buttons hblind hpc
    case fall =>
        intro env hlabel hpc hfires _
        subst hlabel
        exact h.not_overlaps_down hblind (Or.inr ⟨hpc, hfires⟩)
    case lock =>
        intros
        contradiction
    case clear =>
        intro env hlabel hpc _ hover
        subst hlabel
        have hover' : Overlaps s.blk (clearRows s.grid s.score).1 := hover
        rw [(h.spawned hpc).2] at hover'
        obtain ⟨cell, hcell, hocc⟩ := hover'
        exact (hspawn hpc cell hcell).2.2 hocc
    case quiet => exact fun _ => h.free
    case video =>
        intro _ _ hpc _
        exact h.free (by rcases hpc with hpc | hpc <;> simp [hpc])
    all_goals
      intros
      exact h.free (by simp_all)
  · apply step_cases (motive := fun s' => ∀ blk, lastClear seen s l = some blk →
      ¬Overlaps blk.down s'.grid) cfg s l
    case miss =>
        intro env hlabel hpc hmiss blk hblk hover
        subst hlabel
        rw [lastClear, if_pos ⟨hpc, hmiss⟩, Option.some.injEq] at hblk
        subst hblk
        rw [blockCollides_of_overlaps env.oob h.floor.motion.fits.shifts hover] at hmiss
        contradiction
    case lock =>
        intro env hlabel hpc blk hblk
        subst hlabel
        simp [lastClear, hpc] at hblk
    case clear =>
        intro env hlabel hpc blk hblk
        subst hlabel
        have hnone : seen = none := (h.spawned hpc).1
        simp [lastClear, hpc, hnone] at hblk
    case video =>
        intro hlabel _ _
        subst hlabel
        exact h.seen
    case quiet =>
        intro hlabel
        subst hlabel
        exact h.seen
    all_goals
      intro env hlabel hpc
      intros
      subst hlabel
      exact h.seen _ (by simp_all [lastClear])

theorem onFreeCells_start (t0 : BitVec 32) (screen : Screen) : OnFreeCells (none, start t0 screen) where
  floor := onFloor_start t0 screen
  spawned := by simp [start]
  free := fun _ => by
    show ¬Overlaps blockGamma gridClear
    decide +kernel
  seen := by simp

/-- **Locking merges no cells as long as the moves that nothing guards do no harm.** In a run in which
    every spawn finds its cells free, no West piece leaves the grid through the floor, LEFT, RIGHT and
    ENTER end on free cells, and so does a step down from a place `block_collides` has not looked at, every
    lock adds exactly four cells. -/
theorem locksCleanly_of_not_movesBlindly (cfg : Config) (t0 : BitVec 32) (screen : Screen)
    (ls : List Label) (hspawn : AllSteps (step cfg) SpawnsFree (start t0 screen) ls)
    (hmoves : AllSteps (watch (step cfg) lastClear) (fun w l => ¬MovesBlindly w l)
      (none, start t0 screen) ls) :
    AllStates (step cfg) LocksCleanly (start t0 screen) ls := by
  have hspawn' : AllSteps (watch (step cfg) lastClear) (fun w l => SpawnsFree w.2 l)
      (none, start t0 screen) ls := (allSteps_watch (C := SpawnsFree) _ ls).2 hspawn
  have hclean : AllStates (watch (step cfg) lastClear) (fun w => LocksCleanly w.2)
      (none, start t0 screen) ls :=
    (AllStates.of_invariant (onFreeCells_step cfg) (onFreeCells_start t0 screen)
      (hspawn'.and hmoves)).mono fun _ h => h.locksCleanly
  exact (allStates_watch _ ls).1 hclean

/-- A piece taken straight down and locked, and a second one up to the row above the floor, two
    columns to the right. -/
def twoPieces : List Label :=
  (List.range 27).flatMap (fun _ => turn [.down] 0) ++ turn [.right] 0 ++ turn [.right] 0
    ++ (List.range 26).flatMap (fun _ => turn [.down] 0)

/-- With DOWN once more the second piece is locked beside the first. -/
theorem locksCleanly_of_not_movesBlindly_beside :
    AllStates (step sitlConfig) LocksCleanly (start 0 .blank) (twoPieces ++ turn [.down] 0) :=
  locksCleanly_of_not_movesBlindly sitlConfig 0 .blank (twoPieces ++ turn [.down] 0) (by decide +kernel)
    (by decide +kernel)

/-- With LEFT and DOWN at once it is locked on a cell of the first, although every spawn found its
    cells free. -/
theorem twoPieces_merge :
    AllSteps (step sitlConfig) SpawnsFree (start 0 .blank)
        (twoPieces ++ (turn [.left, .down] 0).take 2)
      ∧ ¬AllStates (step sitlConfig) LocksCleanly (start 0 .blank)
        (twoPieces ++ (turn [.left, .down] 0).take 2) := by
  refine ⟨by decide +kernel, fun h => ?_⟩
  have hdisjoint := (h.last (by decide +kernel)).1
  exact absurd hdisjoint (by decide +kernel)

end Katetris
