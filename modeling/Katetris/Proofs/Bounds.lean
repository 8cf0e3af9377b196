import Katetris.Proofs.Motion
import Katetris.Proofs.LineClear

set_option autoImplicit false

/-! # Where the piece can be

Four bounds on the piece, over every run. Rows: the floor test locks at row 27 and nothing but the
guard of DOWN can take the piece past it, which happens for a West piece only (`OvershootsFloor`).
Reads: `block_collides` looks one row below the pattern, and leaves the grid in the one iteration in
which gravity takes the piece from row 26 to row 27. Columns: the guards of LEFT and RIGHT keep every
orientation on the screen, ENTER is not guarded (`RotatesOut`). Widths: one column past the screen is
as far as a turn can get, and there a shifted pattern row still fits below the sign bit of its word
(`bitsExact_run`). -/

namespace Katetris

open Lib

/-! ## Rows -/

/-- DOWN is read while a West piece stands at row 27: the fresh box of that orientation is two rows
    high, so its guard lets the piece go on. -/
def OvershootsFloor (s : Main) (l : Label) : Prop :=
  s.pc = .loop ∧ s.blk.ori = .west ∧ s.blk.x = 27 ∧ l.Presses .down

instance (s : Main) (l : Label) : Decidable (OvershootsFloor s l) :=
  inferInstanceAs (Decidable (_ ∧ _ ∧ _ ∧ _))

/-- The piece is at row 27 at most, and above it when the gravity step is about to be taken. -/
structure OnFloor (s : Main) : Prop where
  motion : Motion s
  x_le : s.blk.x ≤ 27
  x_gravity : s.pc = .gravity → s.blk.x ≤ 26

theorem onFloor_start (t0 : BitVec 32) (screen : Screen) : OnFloor (start t0 screen) where
  motion := motion_start t0 screen
  x_le := by simp [start, blockGamma]
  x_gravity := by simp [start]

theorem buttonsDoAction_x_le {blk : Block} (h : blk.ptrs = patternsGamma) (hx : blk.x ≤ 27)
    (pressed : ButtonStates) (hdown : ¬(blk.ori = .west ∧ blk.x = 27 ∧ pressed .down = true)) :
    (buttonsDoAction blk pressed).1.x ≤ 27 := by
  rw [buttonsDoAction_x_gamma h]
  by_cases hwest : blk.ori = .west
  · simp only [hwest, true_and] at hdown
    simp only [hwest, if_true]
    split_ifs with hpress
    · by_cases h27 : blk.x = 27
      · exact absurd ⟨h27, hpress.1⟩ hdown
      · omega
    · exact hx
  · simp only [hwest, if_false]
    split_ifs <;> omega

theorem OnFloor.step (cfg : Config) (s : Main) (l : Label) (h : OnFloor s)
    (hno : ¬OvershootsFloor s l) : OnFloor (step cfg s l) := by
  refine ⟨h.motion.step cfg s l, ?_, ?_⟩
  · apply step_cases (motive := fun s' => s'.blk.x ≤ 27) cfg s l
    case moved =>
        intro env hlabel hpc _
        subst hlabel
        exact buttonsDoAction_x_le h.motion.gamma h.x_le env.buttons
          (fun hdown => hno ⟨hpc, hdown.1, hdown.2.1, hdown.2.2⟩)
    case idle =>
        intro env hlabel hpc _
        subst hlabel
        exact buttonsDoAction_x_le h.motion.gamma h.x_le env.buttons
          (fun hdown => hno ⟨hpc, hdown.1, hdown.2.1, hdown.2.2⟩)
    case fall =>
        intro env _ hpc _
        have hx := h.x_gravity hpc
        simp only [Block.down]
        omega
    case lock =>
        intros
        simp [blockGamma]
    all_goals
      intros
      exact h.x_le
  · apply step_cases (motive := fun s' => s'.pc = .gravity → s'.blk.x ≤ 26) cfg s l
    case floorMiss =>
        intro env _ _ hfloor _
        rw [h.motion.atFloor_iff] at hfloor
        have hx := h.x_le
        show s.blk.x ≤ 26
        omega
    case quiet => exact fun _ => h.x_gravity
    case video =>
        intro _ _ hpc hgrav
        have hgrav' : s.pc = .gravity := hgrav
        rcases hpc with hpc | hpc <;> simp [hpc] at hgrav'
    case moved =>
        intro env _ _ _ hgrav
        exact absurd hgrav (afterMove_ne cfg (by decide))
    case paint =>
        intro env _ _ hgrav
        exact absurd hgrav (afterPaint_ne cfg (by decide))
    all_goals
      intros
      contradiction

/-- Every cell of the piece is in a row of the grid. -/
def Block.InRows (blk : Block) : Prop := ∀ cell ∈ blk.cells, 0 ≤ cell.1 ∧ cell.1 < 30

instance (blk : Block) : Decidable blk.InRows := inferInstanceAs (Decidable (∀ cell ∈ blk.cells, _))

theorem Block.inRows_gamma {blk : Block} (h : blk.ptrs = patternsGamma) (hx : 0 ≤ blk.x)
    (hx' : blk.x ≤ 27) : blk.InRows := by
  intro cell hcell
  obtain ⟨o, ho, hrow, -⟩ := (Block.cell_gamma h).1 hcell
  have hsmall := (gammaOffsets_lt blk.ori o ho).1
  omega

/-- The piece is inside the grid, and so are the three rows `block_add` writes when it runs. -/
structure AboveFloor (s : Main) : Prop where
  piece : s.blk.InRows
  write : s.pc = .lock → s.blk.x + blockHeight ≤ gridRows

/-- While `buttons_do_action` runs, the piece is inside the grid after each of its branches. -/
def MovesAboveFloor (s : Main) : Label → Prop
  | .main env => s.pc = .loop → ∀ r ∈ buttonsTrace s.blk env.buttons, r.1.InRows
  | .video => True

theorem OnFloor.aboveFloor {s : Main} (h : OnFloor s) : AboveFloor s where
  piece := Block.inRows_gamma h.motion.gamma h.motion.x_nonneg h.x_le
  write := by
    intro _
    have hx := h.x_le
    have hrows : ((gridRows : Nat) : Int) = 30 := rfl
    have hheight : ((blockHeight : Nat) : Int) = 3 := rfl
    omega

theorem OnFloor.movesAboveFloor {s : Main} (h : OnFloor s) {l : Label}
    (hno : ¬OvershootsFloor s l) : MovesAboveFloor s l := by
  cases l with
  | video => trivial
  | main env =>
      intro hpc r hr
      have hlast : (buttonsDoAction s.blk env.buttons).1.x ≤ 27 :=
        buttonsDoAction_x_le h.motion.gamma h.x_le env.buttons
          (fun hdown => hno ⟨hpc, hdown.1, hdown.2.1, hdown.2.2⟩)
      -- no branch moves the piece up, so none of them is below where the call ends
      have hr' : r.1.ptrs = s.blk.ptrs ∧ s.blk.x ≤ r.1.x
          ∧ r.1.x ≤ (buttonsDoAction s.blk env.buttons).1.x := by
        revert r
        simp only [buttonsTrace, buttonsDoAction, pressEnter, pressDown, pressRight, pressLeft,
          blockRotr, Block.down]
        split_ifs <;> simp
      have hx := h.motion.x_nonneg
      exact Block.inRows_gamma (hr'.1.trans h.motion.gamma) (by omega) (by omega)

/-- **The floor holds unless DOWN overshoots it.** In a run in which DOWN is never read with a West
    piece at row 27, the piece is inside the grid at every point of every iteration and `block_add`
    writes rows of the grid only. -/
theorem aboveFloor_of_not_overshoots (cfg : Config) (t0 : BitVec 32) (screen : Screen)
    (ls : List Label)
    (hno : AllSteps (step cfg) (fun s l => ¬OvershootsFloor s l) (start t0 screen) ls) :
    AllStates (step cfg) AboveFloor (start t0 screen) ls
      ∧ AllSteps (step cfg) MovesAboveFloor (start t0 screen) ls := by
  have hstart := onFloor_start t0 screen
  refine ⟨?_, ?_⟩
  · exact (AllStates.of_invariant (OnFloor.step cfg) hstart hno).mono (fun _ h => h.aboveFloor)
  · exact AllSteps.of_invariant (OnFloor.step cfg) (fun _ _ h hl => h.movesAboveFloor hl) hstart hno

/-- A full fall to the floor: the piece goes from row 0 to row 27 and is locked there. -/
def fullDrop : List Label := drops 0 27 ++ turn [] 28000

theorem aboveFloor_of_not_overshoots_fullDrop :
    AllStates (step sitlConfig) AboveFloor (start 0 .blank) fullDrop
      ∧ AllSteps (step sitlConfig) MovesAboveFloor (start 0 .blank) fullDrop :=
  aboveFloor_of_not_overshoots sitlConfig 0 .blank fullDrop (by decide +kernel)

/-- Three turns to West, a fall to row 27, and DOWN before the floor test; gravity then takes the
    piece on to row 29. -/
def westOvershoot : List Label :=
  turn [.enter] 0 ++ turn [.enter] 0 ++ turn [.enter] 0 ++ drops 0 27 ++ turn [.down] 27000
    ++ turn [] 28000

/-- The West piece ends with three of its cells in row 30. -/
theorem westOvershoot_below_floor :
    ¬AllStates (step sitlConfig) AboveFloor (start 0 .blank) westOvershoot := by
  intro h
  have hrows : (exec (step sitlConfig) (start 0 .blank) westOvershoot).blk.InRows := h.last.piece
  exact absurd hrows (by decide +kernel)

/-! ## Reads of the collision test -/

/-- Gravity is about to take the piece from row 26 to row 27. -/
def FallsToFloor (s : Main) (l : Label) : Prop := s.pc = .gravity ∧ s.blk.x = 26 ∧ l.Fires s

instance (s : Main) (l : Label) : Decidable (FallsToFloor s l) :=
  inferInstanceAs (Decidable (_ ∧ _ ∧ _))

/-- When `block_collides` is called, the rows it reads are rows of the grid. -/
def ReadsInGrid (s : Main) : Prop := s.pc = .collides → s.blk.x + blockHeight ≤ gridRows - 1

instance (s : Main) : Decidable (ReadsInGrid s) := inferInstanceAs (Decidable (_ → _))

theorem readsInGrid_step (cfg : Config) (s : Main) (l : Label) (h : OnFloor s) (hs : ReadsInGrid s) :
    ReadsInGrid (step cfg s l) ↔ ¬FallsToFloor s l := by
  have hrows : ((gridRows : Nat) : Int) = 30 := rfl
  have hheight : ((blockHeight : Nat) : Int) = 3 := rfl
  apply step_cases (motive := fun s' => ReadsInGrid s' ↔ ¬FallsToFloor s l) cfg s l
  case fall =>
      intro env hlabel hpc hfires
      subst hlabel
      have hx := h.x_gravity hpc
      have hfalls : FallsToFloor s (.main env) ↔ s.blk.x = 26 :=
        ⟨fun hf => hf.2.1, fun hx26 => ⟨hpc, hx26, hfires⟩⟩
      rw [hfalls, ReadsInGrid]
      simp only [Block.down, true_imp_iff]
      omega
  case stay =>
      intro env hlabel hpc hstay
      subst hlabel
      have hx := h.x_gravity hpc
      refine iff_of_true (fun _ => ?_) (fun hf => hstay hf.2.2)
      show s.blk.x + blockHeight ≤ gridRows - 1
      omega
  case quiet =>
      intro hlabel
      subst hlabel
      exact iff_of_true hs (fun hf => hf.2.2)
  case video =>
      intro hlabel _ _
      subst hlabel
      exact iff_of_true hs (fun hf => hf.2.2)
  case moved =>
      intro env _ hpc _
      refine iff_of_true (fun hcol => ?_) (fun hf => absurd hf.1 (by simp [hpc]))
      exact absurd hcol (afterMove_ne cfg (by decide))
  case paint =>
      intro env _ hpc
      refine iff_of_true (fun hcol => ?_) (fun hf => absurd hf.1 (by simp [hpc]))
      exact absurd hcol (afterPaint_ne cfg (by decide))
  all_goals
    intros
    refine iff_of_true (fun hcol => ?_) (fun hf => ?_)
    · contradiction
    · have := hf.1
      simp_all

/-- **The collision test leaves the grid exactly when gravity takes the piece to row 27.** In a run
    without DOWN, every call reads rows of the grid only if and only if the gravity step never fires
    with the piece at row 26. -/
theorem readsInGrid_iff (cfg : Config) (t0 : BitVec 32) (screen : Screen) (ls : List Label)
    (hdown : AllSteps (step cfg) (fun _ l => ¬l.Presses .down) (start t0 screen) ls) :
    AllStates (step cfg) ReadsInGrid (start t0 screen) ls ↔
      AllSteps (step cfg) (fun s l => ¬FallsToFloor s l) (start t0 screen) ls := by
  refine allStates_iff_allSteps (I := OnFloor) (L := fun _ l => ¬l.Presses .down) ?_ ?_
    (onFloor_start t0 screen) ?_ hdown
  · intro s l h _ hl _
    exact h.step cfg s l (fun hover => hl hover.2.2.2)
  · intro s l h hs _
    exact readsInGrid_step cfg s l h hs
  · intro hcol
    exact absurd hcol (by simp [start])

/-- Twenty-six seconds of falling: every read of the collision test is inside the grid. -/
theorem readsInGrid_iff_drops :
    AllStates (step sitlConfig) ReadsInGrid (start 0 .blank) (drops 0 26) :=
  (readsInGrid_iff sitlConfig 0 .blank (drops 0 26) (by decide +kernel)).2 (by decide +kernel)

/-- One second more, and the test reads index 30. -/
theorem drops_reads_past_grid :
    ¬AllStates (step sitlConfig) ReadsInGrid (start 0 .blank) (drops 0 26 ++ (turn [] 27000).take 3) := by
  intro h
  have hread : ReadsInGrid (exec (step sitlConfig) (start 0 .blank) (drops 0 26 ++ (turn [] 27000).take 3)) :=
    h.last
  exact absurd hread (by decide +kernel)

/-! ## Columns -/

/-- Every cell of the piece is in a visible column. -/
def Block.InColumns (blk : Block) : Prop := ∀ cell ∈ blk.cells, 0 ≤ cell.2 ∧ cell.2 < 30

instance (blk : Block) : Decidable blk.InColumns :=
  inferInstanceAs (Decidable (∀ cell ∈ blk.cells, _))

/-- Every set bit of the grid is in a visible column. -/
def Grid.InColumns (grid : Grid) : Prop := ∀ r c : Nat, (rowAt grid r).getLsbD c = true → c < 30

structure OnScreen (s : Main) : Prop where
  piece : s.blk.InColumns
  grid : Grid.InColumns s.grid

/-- ENTER is read with an upright piece that the same call leaves in column 28: the orientation it
    turns to is three columns wide. -/
def RotatesOut (s : Main) (l : Label) : Prop :=
  s.pc = .loop ∧ (s.blk.ori = .north ∨ s.blk.ori = .south) ∧ l.Presses .enter ∧
    (s.blk.y = 28 ∧ (¬l.Presses .left ∨ l.Presses .right)
      ∨ s.blk.y = 27 ∧ l.Presses .right ∧ ¬l.Presses .left)

instance (s : Main) (l : Label) : Decidable (RotatesOut s l) :=
  inferInstanceAs (Decidable (_ ∧ _ ∧ _ ∧ _))

theorem Block.inColumns_gamma {blk : Block} (h : blk.ptrs = patternsGamma) (hy : 0 ≤ blk.y) :
    blk.InColumns ↔ blk.y + (gammaBox blk.ori).sizey ≤ 30 := by
  rw [Block.InColumns, Block.cells_gamma h]
  cases blk.ori <;> simp [gammaOffsets, gammaBox] <;> omega

theorem blockGamma_inColumns : blockGamma.InColumns := by decide

theorem buttonsDoAction_inColumns {blk : Block} (h : blk.ptrs = patternsGamma)
    (hy : 0 ≤ blk.y ∧ blk.y ≤ 28) (hin : blk.InColumns) (pressed : ButtonStates) :
    (buttonsDoAction blk pressed).1.InColumns ↔
      ¬((blk.ori = .north ∨ blk.ori = .south) ∧ pressed .enter = true ∧
        (blk.y = 28 ∧ (¬pressed .left = true ∨ pressed .right = true)
          ∨ blk.y = 27 ∧ pressed .right = true ∧ ¬pressed .left = true)) := by
  have hgamma : (buttonsDoAction blk pressed).1.ptrs = patternsGamma := by
    rw [buttonsDoAction_ptrs, h]
  rw [Block.inColumns_gamma h hy.1] at hin
  rw [Block.inColumns_gamma hgamma (buttonsDoAction_y_bounds h pressed hy).1,
    buttonsDoAction_y_gamma h, buttonsDoAction_ori]
  cases hori : blk.ori <;> cases pressed .enter <;> cases pressed .left <;> cases pressed .right <;>
    simp only [hori, gammaBox, Ori.next, if_true, if_false, true_and, false_and, and_true,
      and_false, or_true, or_false, reduceCtorEq, Bool.false_eq_true, not_true,
      not_false_eq_true, iff_true] at hin ⊢ <;> (try split_ifs) <;> omega

/-- A bound on the columns of the grid and of the piece is one on the columns of their union. -/
theorem blockAdd_columns_lt {blk : Block} (h : blk.Fits) {n : Nat}
    (hblk : ∀ cell ∈ blk.cells, cell.2 < n) {grid : Grid}
    (hgrid : ∀ r c : Nat, (rowAt grid r).getLsbD c = true → c < n) :
    ∀ r c : Nat, (rowAt (blockAdd blk grid) r).getLsbD c = true → c < n := by
  intro r c hbit
  have hr : r < 30 := by
    by_contra hr
    rw [rowAt_eq_zero _ (by omega)] at hbit
    simp at hbit
  rw [rowAt_blockAdd blk grid r hr] at hbit
  rcases hbit with hbit | ⟨i, hi, -, hbit⟩
  · exact hgrid r c hbit
  · obtain ⟨j, hj, hpat, hc⟩ := (Block.shifted_getLsbD h.shifts i c).1 hbit
    have hcell := hblk (blk.x + i, blk.y + j) (Block.cell_iff.2 ⟨i, j, hi, hj, hpat, rfl, rfl⟩)
    omega

theorem blockAdd_inColumns {blk : Block} (h : blk.Fits) (hblk : blk.InColumns) {grid : Grid}
    (hgrid : Grid.InColumns grid) : Grid.InColumns (blockAdd blk grid) :=
  blockAdd_columns_lt h (fun cell hcell => (hblk cell hcell).2) hgrid

theorem onScreen_step (cfg : Config) (s : Main) (l : Label) (h : Motion s) (hs : OnScreen s) :
    OnScreen (step cfg s l) ↔ ¬RotatesOut s l := by
  have hbuttons : ∀ (env : Env) (v : VBuf) (pc : Pc), l = .main env → s.pc = .loop →
      (OnScreen { s with blk := (buttonsDoAction s.blk env.buttons).1, vbuf := v, pc := pc } ↔
        ¬RotatesOut s l) := by
    intro env v pc hlabel hpc
    subst hlabel
    have hkey := buttonsDoAction_inColumns h.gamma h.y_bounds hs.piece env.buttons
    simp only [RotatesOut, hpc, true_and, Label.Presses]
    rw [← hkey]
    exact ⟨fun hscreen => hscreen.piece, fun hpiece => ⟨hpiece, hs.grid⟩⟩
  apply step_cases (motive := fun s' => OnScreen s' ↔ ¬RotatesOut s l) cfg s l
  case moved =>
      intro env hl hpc _
      exact hbuttons env _ _ hl hpc
  case idle =>
      intro env hl hpc _
      exact hbuttons env _ _ hl hpc
  case fall =>
      intro env _ hpc _
      have hpiece := hs.piece
      rw [Block.inColumns_gamma h.gamma h.y_bounds.1] at hpiece
      have hgamma : s.blk.down.ptrs = patternsGamma := h.gamma
      have hdown : s.blk.down.InColumns := (Block.inColumns_gamma hgamma h.y_bounds.1).2 hpiece
      exact iff_of_true ⟨hdown, hs.grid⟩ (fun hrot => absurd hrot.1 (by simp [hpc]))
  case lock =>
      intro env _ hpc
      exact iff_of_true ⟨blockGamma_inColumns, blockAdd_inColumns h.fits hs.piece hs.grid⟩
        (fun hrot => absurd hrot.1 (by simp [hpc]))
  case clear =>
      intro env _ hpc
      refine iff_of_true ⟨hs.piece, ?_⟩ (fun hrot => absurd hrot.1 (by simp [hpc]))
      exact forall_rowAt_clearLoop (P := fun row => ∀ c : Nat, row.getLsbD c = true → c < 30) 30
        s.grid s.score hs.grid
  case video =>
      intro hlabel _ _
      subst hlabel
      exact iff_of_true ⟨hs.piece, hs.grid⟩ (fun hrot => hrot.2.2.1)
  case quiet =>
      intro hlabel
      subst hlabel
      exact iff_of_true hs (fun hrot => hrot.2.2.1)
  all_goals
    intros
    exact iff_of_true ⟨hs.piece, hs.grid⟩ (fun hrot => absurd hrot.1 (by simp_all))

/-- **The playing field is the visible one exactly when no piece is turned out of it.** -/
theorem onScreen_iff (cfg : Config) (t0 : BitVec 32) (screen : Screen) (ls : List Label) :
    AllStates (step cfg) OnScreen (start t0 screen) ls ↔
      AllSteps (step cfg) (fun s l => ¬RotatesOut s l) (start t0 screen) ls := by
  refine allStates_iff_allSteps (I := Motion) (L := fun _ _ => True)
    (fun s l h _ _ _ => h.step cfg s l) (fun s l h hs _ => onScreen_step cfg s l h hs)
    (motion_start t0 screen) ⟨blockGamma_inColumns, ?_⟩ (AllSteps.of_forall (fun _ _ => trivial) _ ls)
  intro r c hbit
  rw [show (start t0 screen).grid = gridClear from rfl, rowAt_gridClear] at hbit
  simp at hbit

/-- RIGHT to the wall, then ENTER. -/
def turnAtWall : List Label :=
  (List.range 28).flatMap (fun _ => turn [.right] 0) ++ turn [.enter] 0

/-- The East piece at column 28 has a cell in column 30. -/
theorem turnAtWall_leaves_screen :
    ¬AllStates (step sitlConfig) OnScreen (start 0 .blank) turnAtWall := by
  intro h
  have hpiece : (exec (step sitlConfig) (start 0 .blank) turnAtWall).blk.InColumns := h.last.piece
  exact absurd hpiece (by decide +kernel)

/-! ## Widths -/

/-- The bit arithmetic on piece and grid is exact: the column is one a pattern row can be shifted to
    within a signed word, no bit is lost when the shifted row is stored, and no grid row has a bit
    that `grid_draw` does not test. -/
structure BitsExact (s : Main) : Prop where
  column : 0 ≤ s.blk.y ∧ s.blk.y ≤ 28
  ori : s.blk.ori.code < 4
  shift : ∀ i, (rowAt s.blk.pattern i).toNat <<< s.blk.y.toNat < 2 ^ 31
  stored : ∀ i, (s.blk.shifted i).toNat = (rowAt s.blk.pattern i).toNat <<< s.blk.y.toNat
  rows : ∀ r, (rowAt s.grid r).toNat < 2 ^ 31
  drawn : ∀ r c : Nat, (rowAt s.grid r).getLsbD c = true → c < gridCols

/-- While `buttons_do_action` runs, the piece is in columns 0..28 after each of its branches. -/
def MovesInColumns (s : Main) : Label → Prop
  | .main env => s.pc = .loop → ∀ r ∈ buttonsTrace s.blk env.buttons, 0 ≤ r.1.y ∧ r.1.y ≤ 28
  | .video => True

/-- A pattern row shifted to a column of the field stays below the sign bit. -/
theorem Block.Fits.shift_lt {blk : Block} (h : blk.Fits) (i : Nat) :
    (rowAt blk.pattern i).toNat <<< blk.y.toNat < 2 ^ 31 := by
  have hrow : (rowAt blk.pattern i).toNat < 8 := by simpa [BitVec.lt_def] using h.small i
  have hpow : 2 ^ blk.y.toNat ≤ 2 ^ 28 :=
    Nat.pow_le_pow_right (by norm_num) (by have := h.y_le; omega)
  calc (rowAt blk.pattern i).toNat <<< blk.y.toNat
      = (rowAt blk.pattern i).toNat * 2 ^ blk.y.toNat := Nat.shiftLeft_eq _ _
    _ ≤ 7 * 2 ^ 28 := Nat.mul_le_mul (by omega) hpow
    _ < 2 ^ 31 := by norm_num

theorem Block.Fits.shifted_toNat {blk : Block} (h : blk.Fits) (i : Nat) :
    (blk.shifted i).toNat = (rowAt blk.pattern i).toNat <<< blk.y.toNat := by
  have hlt := h.shift_lt i
  rw [Block.shifted, BitVec.toNat_shiftLeft, BitVec.toNat_setWidth_of_le (by norm_num)]
  exact Nat.mod_eq_of_lt (lt_trans hlt (by norm_num))

theorem toNat_lt_of_bits_lt {w n : Nat} {row : BitVec w}
    (h : ∀ c : Nat, row.getLsbD c = true → c < n) : row.toNat < 2 ^ n := by
  refine Nat.lt_pow_two_of_testBit _ fun c hc => ?_
  by_contra hbit
  have hlt := h c (by simpa [BitVec.getLsbD] using hbit)
  omega

theorem buttonsTrace_columns {blk : Block} (h : blk.ptrs = patternsGamma)
    (hy : 0 ≤ blk.y ∧ blk.y ≤ 28) (pressed : ButtonStates) :
    ∀ r ∈ buttonsTrace blk pressed, 0 ≤ r.1.y ∧ r.1.y ≤ 28 := by
  have hbox : (gammaBox blk.ori).y = 0 ∧ 2 ≤ (gammaBox blk.ori).sizey := by
    cases blk.ori <;> decide
  have hcols : ((gridCols : Nat) : Int) = 31 := rfl
  set s1 := pressLeft (gammaBox blk.ori) pressed (blk, false) with hs1
  set s2 := pressRight (gammaBox blk.ori) pressed s1 with hs2
  have hleft : 0 ≤ s1.1.y ∧ s1.1.y ≤ 28 := by
    rw [hs1, pressLeft_y]
    simp only
    split_ifs <;> omega
  have hright : 0 ≤ s2.1.y ∧ s2.1.y ≤ 28 := by
    rw [hs2, pressRight_y]
    split_ifs <;> omega
  intro r hr
  simp only [buttonsTrace, getBbox_pattern_gamma h, ← hs1, ← hs2, List.mem_cons, List.not_mem_nil,
    or_false] at hr
  rcases hr with rfl | rfl | rfl | rfl
  · exact hleft
  · exact hright
  · rw [pressDown_y]
    exact hright
  · rw [pressEnter_y, pressDown_y]
    exact hright

/-- What carries `BitsExact` along a run. -/
structure BitsWithin (s : Main) : Prop where
  motion : Motion s
  drawn : ∀ r c : Nat, (rowAt s.grid r).getLsbD c = true → c < gridCols

theorem BitsWithin.bitsExact {s : Main} (h : BitsWithin s) : BitsExact s where
  column := h.motion.y_bounds
  ori := by cases s.blk.ori <;> decide
  shift := h.motion.fits.shift_lt
  stored := h.motion.fits.shifted_toNat
  rows := fun r => toNat_lt_of_bits_lt (h.drawn r)
  drawn := h.drawn

theorem BitsWithin.step (cfg : Config) (s : Main) (l : Label) (h : BitsWithin s) :
    BitsWithin (step cfg s l) := by
  refine ⟨h.motion.step cfg s l, ?_⟩
  apply step_cases (motive := fun s' =>
    ∀ r c : Nat, (rowAt s'.grid r).getLsbD c = true → c < gridCols) cfg s l
  case lock =>
      -- the rightmost cell of a piece in column 28 is in column 30
      intro env _ _
      refine blockAdd_columns_lt h.motion.fits (fun cell hcell => ?_) h.drawn
      obtain ⟨o, ho, -, hcol⟩ := (Block.cell_gamma h.motion.gamma).1 hcell
      have hsmall := (gammaOffsets_lt s.blk.ori o ho).2
      have hy := h.motion.y_bounds.2
      have hcols : ((gridCols : Nat) : Int) = 31 := rfl
      omega
  case clear =>
      intro env _ _
      exact forall_rowAt_clearLoop (P := fun row => ∀ c : Nat, row.getLsbD c = true → c < gridCols) 30
        s.grid s.score h.drawn
  all_goals
    intros
    exact h.drawn _ _ ‹_›

/-- **The bit arithmetic is exact in every run.** In every state the piece is in columns 0..28, every
    pattern row shifted there is below the sign bit and is stored without loss, and every grid row has
    only bits that `grid_draw` tests; the column bound also holds inside `buttons_do_action`. -/
theorem bitsExact_run (cfg : Config) (t0 : BitVec 32) (screen : Screen) (ls : List Label) :
    AllStates (step cfg) BitsExact (start t0 screen) ls
      ∧ AllSteps (step cfg) MovesInColumns (start t0 screen) ls := by
  have hstart : BitsWithin (start t0 screen) := by
    refine ⟨motion_start t0 screen, fun r c hbit => ?_⟩
    rw [show (start t0 screen).grid = gridClear from rfl, rowAt_gridClear] at hbit
    simp at hbit
  refine ⟨?_, ?_⟩
  · exact (AllStates.of_invariant' (BitsWithin.step cfg) hstart ls).mono (fun _ h => h.bitsExact)
  · refine AllSteps.of_invariant (C := fun _ _ => True) (fun s l h _ => h.step cfg s l) ?_ hstart
      (AllSteps.of_forall (fun _ _ => trivial) _ ls)
    intro s l h _
    cases l with
    | video => trivial
    | main env => exact fun _ => buttonsTrace_columns h.motion.gamma h.motion.y_bounds env.buttons

end Katetris
